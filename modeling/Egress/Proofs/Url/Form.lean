import Egress.Proofs.Text.Utf8
import Egress.Url.Form
import Mathlib.Data.List.TakeDrop

/-!
# Queries read back

`decodeForm_encodeForm`: the pairs that are written into a query are those that are read from it, whatever
texts they are.

* `decodeFormPart_encodeFormPart`: a name or value reads back. Each byte is written as itself, as a plus sign
  or in digits, and none of these begins like another (`percentDecode_formByte`).
* `marks_notMem_encodeFormPart`: what is written holds no mark of a query, so that splitting finds the pieces
  that were joined (`splitAtEach_intercalate`, `splitAtFirst_append`) and no fragment begins within it
  (`hash_notMem_encodeForm`).
-/

set_option autoImplicit false

namespace Egress.Url

/-! ## Splitting -/

section

variable {separator : Char} {piece : List Char}

theorem splitAtEach_of_notMem (h : separator ∉ piece) : splitAtEach separator piece = [piece] := by
  induction piece with
  | nil => rfl
  | cons c piece ih =>
    rw [List.mem_cons, not_or] at h
    rw [splitAtEach, if_neg (Ne.symm h.1), ih h.2]

theorem splitAtEach_append (h : separator ∉ piece) (rest : List Char) :
    splitAtEach separator (piece ++ separator :: rest) = piece :: splitAtEach separator rest := by
  induction piece with
  | nil => rw [List.nil_append, splitAtEach, if_pos rfl]
  | cons c piece ih =>
    rw [List.mem_cons, not_or] at h
    rw [List.cons_append, splitAtEach, if_neg (Ne.symm h.1), ih h.2]

theorem splitAtEach_intercalate {pieces : List (List Char)} (h : ∀ p ∈ pieces, separator ∉ p)
    (hne : pieces ≠ []) : splitAtEach separator ([separator].intercalate pieces) = pieces := by
  induction pieces with
  | nil => exact absurd rfl hne
  | cons p pieces ih =>
    have hp : separator ∉ p := h p List.mem_cons_self
    cases pieces with
    | nil => simpa [List.intercalate] using splitAtEach_of_notMem hp
    | cons q pieces =>
      have hrest := ih (fun r hr => h r (List.mem_cons_of_mem _ hr)) (List.cons_ne_nil _ _)
      rw [List.intercalate_cons_cons, List.append_assoc, List.singleton_append, splitAtEach_append hp,
        hrest]

theorem notMem_intercalate {c : Char} {pieces : List (List Char)} (hc : c ≠ separator)
    (h : ∀ p ∈ pieces, c ∉ p) : c ∉ [separator].intercalate pieces := by
  induction pieces with
  | nil => simp [List.intercalate]
  | cons p pieces ih =>
    have hp : c ∉ p := h p List.mem_cons_self
    cases pieces with
    | nil => simpa [List.intercalate] using hp
    | cons q pieces =>
      have hrest := ih fun r hr => h r (List.mem_cons_of_mem _ hr)
      rw [List.intercalate_cons_cons, List.mem_append, List.mem_append, List.mem_singleton]
      simp only [hp, hc, hrest, or_self, not_false_eq_true]

theorem span_ne_append (h : separator ∉ piece) (rest : List Char) :
    (piece ++ separator :: rest).span (· ≠ separator) = (piece, separator :: rest) := by
  have hall : ∀ c ∈ piece, decide (c ≠ separator) = true := fun c hc =>
    decide_eq_true fun heq => h (heq ▸ hc)
  rw [List.span_eq_takeWhile_dropWhile, List.takeWhile_append_of_pos hall, List.dropWhile_append_of_pos hall]
  simp

theorem splitAtFirst_append (h : separator ∉ piece) (rest : List Char) :
    splitAtFirst separator (piece ++ separator :: rest) = (piece, rest) := by
  simp only [splitAtFirst, span_ne_append h]

end

/-! ## Bytes -/

theorem percentDecode_cons_of_ne {b : UInt8} (h : b ≠ 0x25) (rest : List UInt8) :
    percentDecode (b :: rest) = b :: percentDecode rest := by
  rcases rest with _ | ⟨c, _ | ⟨d, rest⟩⟩
  · rfl
  · rfl
  · rw [percentDecode, if_neg h]

theorem percentDecode_escape {b c : UInt8} {high low : Nat} (hhigh : hexByteValue? b = some high)
    (hlow : hexByteValue? c = some low) (rest : List UInt8) :
    percentDecode (0x25 :: b :: c :: rest) = UInt8.ofNat (16 * high + low) :: percentDecode rest := by
  rw [percentDecode, if_pos rfl, hhigh, hlow]

/-- One byte of an encoded name or value. -/
def formByte (b : UInt8) : List Char :=
  if b = 0x20 then ['+'] else if isFormByte b then [Char.ofNat b.toNat] else percentByte b

theorem encodeFormPart_eq (s : String) : encodeFormPart s = (Text.Utf8.encode s).flatMap formByte := rfl

/-- The bytes of the characters, with plus signs for spaces. -/
def formBytes (cs : List Char) : List UInt8 :=
  (cs.flatMap Text.Utf8.encodeChar).map fun b => if b = 0x2B then 0x20 else b

theorem formBytes_append (cs cs' : List Char) : formBytes (cs ++ cs') = formBytes cs ++ formBytes cs' := by
  rw [formBytes, List.flatMap_append, List.map_append]
  rfl

theorem hexDigitUpper_spec : ∀ n < 16,
    formBytes [Text.hexDigitUpper n] = [UInt8.ofNat (Text.hexDigitUpper n).toNat] ∧
      hexByteValue? (UInt8.ofNat (Text.hexDigitUpper n).toNat) = some n ∧
      Text.hexDigitUpper n ∉ ['&', '=', '#'] := by
  decide

theorem formBytes_percentByte (b : UInt8) :
    formBytes (percentByte b) = [0x25, UInt8.ofNat (Text.hexDigitUpper (b.toNat / 16)).toNat,
      UInt8.ofNat (Text.hexDigitUpper (b.toNat % 16)).toNat] := by
  have hlt := b.toNat_lt
  have hhigh := (hexDigitUpper_spec (b.toNat / 16) (by omega)).1
  have hlow := (hexDigitUpper_spec (b.toNat % 16) (Nat.mod_lt _ (by decide))).1
  have hsplit : percentByte b =
      ['%'] ++ ([Text.hexDigitUpper (b.toNat / 16)] ++ [Text.hexDigitUpper (b.toNat % 16)]) := rfl
  rw [hsplit, formBytes_append, formBytes_append, hhigh, hlow]
  rfl

theorem toNat_charOfByte (b : UInt8) : (Char.ofNat b.toNat).toNat = b.toNat :=
  Text.Utf8.toNat_charOfNat (.inl (Nat.lt_trans b.toNat_lt (by decide)))

/-- A byte that stands for itself is that of an ASCII character other than the ones with a meaning. -/
theorem isFormByte_spec {b : UInt8} (h : isFormByte b = true) :
    b.toNat < 0x80 ∧ b ≠ 0x25 ∧ b ≠ 0x2B ∧ Char.ofNat b.toNat ∉ ['&', '=', '#'] := by
  have hranges : (0x30 ≤ b.toNat ∧ b.toNat ≤ 0x39) ∨ (0x41 ≤ b.toNat ∧ b.toNat ≤ 0x5A) ∨
      (0x61 ≤ b.toNat ∧ b.toNat ≤ 0x7A) ∨ b.toNat = 0x2A ∨ b.toNat = 0x2D ∨ b.toNat = 0x2E ∨
        b.toNat = 0x5F := by
    simp only [isFormByte, isByteOf, UInt8.le_iff_toNat_le, UInt8.reduceToNat, Bool.or_eq_true,
      Bool.and_eq_true, decide_eq_true_eq, List.any_cons, List.any_nil, Char.reduceToNat, beq_iff_eq,
      Bool.false_eq_true, or_false] at h
    omega
  have hchar := toNat_charOfByte b
  refine ⟨by omega, fun heq => ?_, fun heq => ?_, fun hmem => ?_⟩
  · have : b.toNat = 0x25 := congrArg UInt8.toNat heq
    omega
  · have : b.toNat = 0x2B := congrArg UInt8.toNat heq
    omega
  · have hcode : b.toNat = 0x26 ∨ b.toNat = 0x3D ∨ b.toNat = 0x23 := by
      rw [← hchar]
      simp only [List.mem_cons, List.not_mem_nil, or_false] at hmem
      rcases hmem with heq | heq | heq <;> rw [heq] <;> decide
    omega

theorem percentDecode_formByte (b : UInt8) (rest : List UInt8) :
    percentDecode (formBytes (formByte b) ++ rest) = b :: percentDecode rest := by
  unfold formByte
  split
  · next hspace =>
    subst hspace
    exact percentDecode_cons_of_ne (by decide) rest
  · split
    · next hform =>
      obtain ⟨hlt, hpercent, hplus, -⟩ := isFormByte_spec hform
      have hchar : Text.Utf8.encodeChar (Char.ofNat b.toNat) = [b] := by
        rw [Text.Utf8.encodeChar_of_ascii (by rw [toNat_charOfByte]; exact hlt), toNat_charOfByte,
          UInt8.ofNat_toNat]
      have hbytes : formBytes [Char.ofNat b.toNat] = [b] := by
        rw [formBytes, List.flatMap_singleton, hchar, List.map_singleton, if_neg hplus]
      rw [hbytes]
      exact percentDecode_cons_of_ne hpercent rest
    · have hlt := b.toNat_lt
      have hhigh := (hexDigitUpper_spec (b.toNat / 16) (by omega)).2.1
      have hlow := (hexDigitUpper_spec (b.toNat % 16) (Nat.mod_lt _ (by decide))).2.1
      rw [formBytes_percentByte, List.cons_append, List.cons_append, List.singleton_append,
        percentDecode_escape hhigh hlow, Nat.div_add_mod, UInt8.ofNat_toNat]

/-! ## Names and values -/

theorem decodeFormPart_encodeFormPart (s : String) : decodeFormPart (encodeFormPart s) = s := by
  have general : ∀ bytes : List UInt8, percentDecode (formBytes (bytes.flatMap formByte)) = bytes := by
    intro bytes
    induction bytes with
    | nil => rfl
    | cons b bytes ih => rw [List.flatMap_cons, formBytes_append, percentDecode_formByte, ih]
  have hpart : decodeFormPart (encodeFormPart s) =
      Text.Utf8.decodeLossy (percentDecode (formBytes (encodeFormPart s))) := rfl
  rw [hpart, encodeFormPart_eq, general, Text.Utf8.decodeLossy_encode]

theorem marks_notMem_encodeFormPart (s : String) {c : Char} (h : c ∈ encodeFormPart s) :
    c ∉ ['&', '=', '#'] := by
  rw [encodeFormPart_eq, List.mem_flatMap] at h
  obtain ⟨b, -, hc⟩ := h
  unfold formByte at hc
  split at hc
  · rw [List.mem_singleton] at hc
    subst hc
    decide
  · split at hc
    · next hform =>
      rw [List.mem_singleton] at hc
      subst hc
      exact (isFormByte_spec hform).2.2.2
    · have hlt := b.toNat_lt
      simp only [percentByte, List.mem_cons, List.not_mem_nil, or_false] at hc
      rcases hc with rfl | rfl | rfl
      · decide
      · exact (hexDigitUpper_spec (b.toNat / 16) (by omega)).2.2
      · exact (hexDigitUpper_spec (b.toNat % 16) (Nat.mod_lt _ (by decide))).2.2

/-! ## Pairs -/

/-- A pair as it stands in a query. -/
def encodePair (p : String × String) : List Char := encodeFormPart p.1 ++ '=' :: encodeFormPart p.2

theorem notMem_encodePair {c : Char} (h : c ∈ ['&', '#']) (p : String × String) : c ∉ encodePair p := by
  have hmark : c ∈ ['&', '=', '#'] ∧ c ≠ '=' := by
    simp only [List.mem_cons, List.not_mem_nil, or_false] at h
    rcases h with rfl | rfl <;> decide
  intro hmem
  rcases List.mem_append.1 hmem with hmem | hmem
  · exact marks_notMem_encodeFormPart p.1 hmem hmark.1
  · rcases List.mem_cons.1 hmem with heq | hmem
    · exact hmark.2 heq
    · exact marks_notMem_encodeFormPart p.2 hmem hmark.1

/-- Every list of pairs of texts is read as it was written. -/
theorem decodeForm_encodeForm (pairs : List (String × String)) : decodeForm (encodeForm pairs) = pairs := by
  by_cases hne : pairs = []
  · subst hne
    rfl
  · have hsplit : splitAtEach '&' (encodeForm pairs).toList = pairs.map encodePair := by
      rw [encodeForm, String.toList_ofList]
      refine splitAtEach_intercalate (fun piece hpiece => ?_) (by simpa using hne)
      obtain ⟨p, -, rfl⟩ := List.mem_map.1 hpiece
      exact notMem_encodePair (by decide) p
    have hfull : ∀ piece ∈ pairs.map encodePair, (!piece.isEmpty) = true := by
      intro piece hpiece
      obtain ⟨p, -, rfl⟩ := List.mem_map.1 hpiece
      simp [encodePair]
    have hpair : ∀ p : String × String, splitAtFirst '=' (encodePair p) =
        (encodeFormPart p.1, encodeFormPart p.2) := fun p =>
      splitAtFirst_append (fun h => marks_notMem_encodeFormPart p.1 h (by decide)) _
    rw [decodeForm, hsplit, List.filter_eq_self.2 hfull, List.map_map]
    refine (List.map_congr_left fun p _ => ?_).trans (List.map_id pairs)
    simp only [Function.comp_apply, hpair, decodeFormPart_encodeFormPart, id_eq]

/-- A query that is written does not run into a fragment. -/
theorem hash_notMem_encodeForm (pairs : List (String × String)) : '#' ∉ (encodeForm pairs).toList := by
  rw [encodeForm, String.toList_ofList]
  refine notMem_intercalate (by decide) fun piece hpiece => ?_
  obtain ⟨p, -, rfl⟩ := List.mem_map.1 hpiece
  exact notMem_encodePair (by decide) p

end Egress.Url
