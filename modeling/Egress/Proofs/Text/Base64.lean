import Egress.Text.Base64
import Mathlib.Algebra.Group.Nat.Defs
import Mathlib.Data.List.Induction

/-!
# Base64 is read back

A group of characters is a number in base 64, most significant digit first, and a group of bytes the same number
in base 256. Reading (`decode?`) looks characters up in the alphabet, and accepts a group that is filled up only
if the bits that belong to no byte are zero.

* `number?_eq_some_iff`: the digits of a number are the only characters that have its value.
* `padded_encode`: how long a text is, where it is filled up, and that all else is in the alphabet.
* `decode?_eq_some_iff`: reading accepts what writing makes of some bytes, and gives these bytes.
-/

set_option autoImplicit false

namespace Egress.Text.Base64

/-! ## Digits -/

/-- The characters of the values from 0 to 63. -/
def alphabet : List Char := "ABCDEFGHIJKLMNOPQRSTUVWXYZabcdefghijklmnopqrstuvwxyz0123456789+/".toList

/-- The value of a character of the alphabet. -/
def value? (c : Char) : Option Nat := alphabet.idxOf? c

theorem alphabet_eq : alphabet = (List.range 64).map digit := by decide

theorem value?_digit : ∀ n < 64, value? (digit n) = some n := by decide

theorem value?_eq_some_iff {c : Char} {n : Nat} : value? c = some n ↔ n < 64 ∧ c = digit n := by
  refine ⟨fun h => ?_, fun ⟨hn, hc⟩ => hc ▸ value?_digit n hn⟩
  rw [value?, alphabet_eq] at h
  obtain ⟨hlt, hget, -⟩ := List.idxOf?_eq_some_iff.1 h
  rw [List.getElem_map, List.getElem_range] at hget
  exact ⟨by simpa using hlt, hget.symm⟩

theorem digit_mem_alphabet {n : Nat} (h : n < 64) : digit n ∈ alphabet :=
  alphabet_eq ▸ List.mem_map_of_mem (List.mem_range.2 h)

theorem digit_ne_pad {n : Nat} (h : n < 64) : digit n ≠ '=' :=
  ne_of_mem_of_not_mem (digit_mem_alphabet h) (by decide)

/-! ## Groups -/

/-- The last `k` digits of a number. -/
def digits : Nat → Nat → List Char
  | 0, _ => []
  | k + 1, n => digits k (n / 64) ++ [digit (n % 64)]

theorem length_digits (k n : Nat) : (digits k n).length = k := by
  induction k generalizing n with
  | zero => rfl
  | succ k ih => rw [digits, List.length_append, ih, List.length_singleton]

/-- The number that the characters are the digits of. -/
def number? (cs : List Char) : Option Nat :=
  cs.foldlM (fun n c => (value? c).map (n * 64 + ·)) 0

theorem number?_concat (cs : List Char) (c : Char) :
    number? (cs ++ [c]) = (number? cs).bind fun n => (value? c).map (n * 64 + ·) := by
  rw [number?, List.foldlM_append]
  simp [number?]

theorem number?_digits {k n : Nat} (h : n < 64 ^ k) : number? (digits k n) = some n := by
  induction k generalizing n with
  | zero =>
    obtain rfl : n = 0 := by omega
    rfl
  | succ k ih =>
    have hhigh : n / 64 < 64 ^ k := Nat.div_lt_of_lt_mul (by rwa [Nat.pow_succ, Nat.mul_comm] at h)
    rw [digits, number?_concat, ih hhigh, Option.bind_some, value?_digit _ (by omega), Option.map_some,
      Nat.div_add_mod']

theorem eq_digits_of_number? {cs : List Char} {n : Nat} (h : number? cs = some n) :
    n < 64 ^ cs.length ∧ cs = digits cs.length n := by
  induction cs using List.reverseRecOn generalizing n with
  | nil =>
    obtain rfl : 0 = n := Option.some.inj h
    exact ⟨Nat.one_pos, rfl⟩
  | append_singleton cs c ih =>
    rw [number?_concat] at h
    obtain ⟨high, hhigh, hlow⟩ := Option.bind_eq_some_iff.1 h
    obtain ⟨low, hvalue, rfl⟩ := Option.map_eq_some_iff.1 hlow
    obtain ⟨hlt, rfl⟩ := value?_eq_some_iff.1 hvalue
    obtain ⟨hbound, hcs⟩ := ih hhigh
    have hdiv : (high * 64 + low) / 64 = high := by omega
    have hmod : (high * 64 + low) % 64 = low := by omega
    rw [List.length_append, List.length_singleton, Nat.pow_succ, digits, hdiv, hmod, ← hcs]
    exact ⟨by omega, rfl⟩

theorem number?_eq_some_iff {cs : List Char} {n : Nat} :
    number? cs = some n ↔ n < 64 ^ cs.length ∧ cs = digits cs.length n :=
  ⟨eq_digits_of_number?, fun ⟨hn, hcs⟩ => by rw [hcs, number?_digits hn]⟩

/-! ## Texts -/

/-- The bytes that a text stands for. -/
def decode? : List Char → Option (List UInt8)
  | [] => some []
  | [c, d, '=', '='] =>
    (number? [c, d]).bind fun n => if n % 16 = 0 then some [UInt8.ofNat (n / 16)] else none
  | [c, d, e, '='] =>
    (number? [c, d, e]).bind fun n =>
      if n % 4 = 0 then some [UInt8.ofNat (n / 1024), UInt8.ofNat (n / 4)] else none
  | c :: d :: e :: f :: rest =>
    (number? [c, d, e, f]).bind fun n =>
      (decode? rest).map fun bytes =>
        UInt8.ofNat (n / 65536) :: UInt8.ofNat (n / 256) :: UInt8.ofNat n :: bytes
  | _ => none

/-- The form of a text for `size` bytes: four characters for three bytes or for what is left of three, the last
of them `=` as far as bytes are missing, and all others from the alphabet. -/
def Padded (size : Nat) (text : List Char) : Prop :=
  text.length = 4 * ((size + 2) / 3) ∧
    ∃ body, text = body ++ List.replicate ((3 - size % 3) % 3) '=' ∧ ∀ c ∈ body, c ∈ alphabet

section

variable {a b c : UInt8}

theorem ofNat_eq_iff {n : Nat} : UInt8.ofNat n = a ↔ n % 256 = a.toNat := by
  rw [← UInt8.toNat_inj, UInt8.toNat_ofNat']

theorem encode_one : encode [a] = digits 2 (a.toNat * 16) ++ ['=', '='] := by
  have ha := a.toNat_lt
  have hhigh : a.toNat * 16 / 64 % 64 = a.toNat * 16 / 64 := by omega
  simp only [encode, digits, hhigh, List.nil_append, List.cons_append]

theorem encode_two : encode [a, b] = digits 3 ((a.toNat * 256 + b.toNat) * 4) ++ ['='] := by
  have ha := a.toNat_lt
  have hb := b.toNat_lt
  have hhigh : (a.toNat * 256 + b.toNat) * 4 / 64 / 64 % 64 = (a.toNat * 256 + b.toNat) * 4 / 4096 := by omega
  simp only [encode, digits, hhigh, List.nil_append, List.cons_append]

theorem encode_three (rest : List UInt8) :
    encode (a :: b :: c :: rest) =
      digits 4 ((a.toNat * 256 + b.toNat) * 256 + c.toNat) ++ encode rest := by
  have ha := a.toNat_lt
  have hb := b.toNat_lt
  have hc := c.toNat_lt
  generalize hn : (a.toNat * 256 + b.toNat) * 256 + c.toNat = n
  have hhigh : n / 64 / 64 / 64 % 64 = n / 262144 := by omega
  have hnext : n / 64 / 64 % 64 = n / 4096 % 64 := by omega
  simp only [encode, digits, hn, hhigh, hnext, List.nil_append, List.cons_append]

end

/-! ## Reading -/

theorem decode?_two {n : Nat} (h : n < 64 ^ 2) :
    decode? (digits 2 n ++ ['=', '=']) = if n % 16 = 0 then some [UInt8.ofNat (n / 16)] else none := by
  have hread : decode? (digits 2 n ++ ['=', '=']) = (number? (digits 2 n)).bind fun n =>
      if n % 16 = 0 then some [UInt8.ofNat (n / 16)] else none := rfl
  rw [hread, number?_digits h, Option.bind_some]

theorem decode?_three {n : Nat} (h : n < 64 ^ 3) :
    decode? (digits 3 n ++ ['=']) =
      if n % 4 = 0 then some [UInt8.ofNat (n / 1024), UInt8.ofNat (n / 4)] else none := by
  have hread : decode? (digits 3 n ++ ['=']) = (number? (digits 3 n)).bind fun n =>
      if n % 4 = 0 then some [UInt8.ofNat (n / 1024), UInt8.ofNat (n / 4)] else none := by
    simp only [digits, List.nil_append, List.cons_append]
    rw [decode?]
    exact digit_ne_pad (Nat.mod_lt _ (by decide))
  rw [hread, number?_digits h, Option.bind_some]

theorem decode?_four {n : Nat} (h : n < 64 ^ 4) (rest : List Char) :
    decode? (digits 4 n ++ rest) = (decode? rest).map fun bytes =>
      UInt8.ofNat (n / 65536) :: UInt8.ofNat (n / 256) :: UInt8.ofNat n :: bytes := by
  have hread : decode? (digits 4 n ++ rest) = (number? (digits 4 n)).bind fun n =>
      (decode? rest).map fun bytes =>
        UInt8.ofNat (n / 65536) :: UInt8.ofNat (n / 256) :: UInt8.ofNat n :: bytes := by
    have hlast : digit (n % 64) ≠ '=' := digit_ne_pad (Nat.mod_lt _ (by decide))
    simp only [digits, List.nil_append, List.cons_append]
    rw [decode?]
    · exact fun _ hpad _ => hlast hpad
    · exact fun hpad _ => hlast hpad
  rw [hread, number?_digits h, Option.bind_some]

theorem decode?_encode : ∀ bytes : List UInt8, decode? (encode bytes) = some bytes
  | [] => rfl
  | [a] => by
    have ha := a.toNat_lt
    have hfirst : UInt8.ofNat (a.toNat * 16 / 16) = a := ofNat_eq_iff.2 (by omega)
    rw [encode_one, decode?_two (by omega), if_pos (by omega), hfirst]
  | [a, b] => by
    have ha := a.toNat_lt
    have hb := b.toNat_lt
    have hfirst : UInt8.ofNat ((a.toNat * 256 + b.toNat) * 4 / 1024) = a := ofNat_eq_iff.2 (by omega)
    have hsecond : UInt8.ofNat ((a.toNat * 256 + b.toNat) * 4 / 4) = b := ofNat_eq_iff.2 (by omega)
    rw [encode_two, decode?_three (by omega), if_pos (by omega), hfirst, hsecond]
  | a :: b :: c :: rest => by
    have ha := a.toNat_lt
    have hb := b.toNat_lt
    have hc := c.toNat_lt
    have hfirst : UInt8.ofNat (((a.toNat * 256 + b.toNat) * 256 + c.toNat) / 65536) = a :=
      ofNat_eq_iff.2 (by omega)
    have hsecond : UInt8.ofNat (((a.toNat * 256 + b.toNat) * 256 + c.toNat) / 256) = b :=
      ofNat_eq_iff.2 (by omega)
    have hthird : UInt8.ofNat ((a.toNat * 256 + b.toNat) * 256 + c.toNat) = c := ofNat_eq_iff.2 (by omega)
    rw [encode_three, decode?_four (by omega), decode?_encode rest, Option.map_some, hfirst, hsecond, hthird]

/-- The bits that are left over are zero, so that the number of a group is known from its bytes. -/
theorem eq_encode_of_decode? {text : List Char} {bytes : List UInt8} (h : decode? text = some bytes) :
    text = encode bytes := by
  fun_induction decode? text generalizing bytes with
  | case1 =>
    cases h
    rfl
  | case2 c d =>
    obtain ⟨n, hnumber, hread⟩ := Option.bind_eq_some_iff.1 h
    obtain ⟨hlt, hdigits⟩ := number?_eq_some_iff.1 hnumber
    obtain ⟨hzero, hbytes⟩ := Option.ite_none_right_eq_some.1 hread
    obtain rfl := Option.some.inj hbytes
    have hback : (UInt8.ofNat (n / 16)).toNat * 16 = n := by
      rw [UInt8.toNat_ofNat']
      simp only [List.length_cons, List.length_nil] at hlt
      omega
    calc [c, d, '=', '='] = [c, d] ++ ['=', '='] := rfl
      _ = digits 2 n ++ ['=', '='] := congrArg (· ++ ['=', '=']) hdigits
      _ = encode [UInt8.ofNat (n / 16)] := by rw [encode_one, hback]
  | case3 c d e =>
    obtain ⟨n, hnumber, hread⟩ := Option.bind_eq_some_iff.1 h
    obtain ⟨hlt, hdigits⟩ := number?_eq_some_iff.1 hnumber
    obtain ⟨hzero, hbytes⟩ := Option.ite_none_right_eq_some.1 hread
    obtain rfl := Option.some.inj hbytes
    have hback : ((UInt8.ofNat (n / 1024)).toNat * 256 + (UInt8.ofNat (n / 4)).toNat) * 4 = n := by
      rw [UInt8.toNat_ofNat', UInt8.toNat_ofNat']
      simp only [List.length_cons, List.length_nil] at hlt
      omega
    calc [c, d, e, '='] = [c, d, e] ++ ['='] := rfl
      _ = digits 3 n ++ ['='] := congrArg (· ++ ['=']) hdigits
      _ = encode [UInt8.ofNat (n / 1024), UInt8.ofNat (n / 4)] := by rw [encode_two, hback]
  | case4 c d e f rest _ _ ih =>
    obtain ⟨n, hnumber, hread⟩ := Option.bind_eq_some_iff.1 h
    obtain ⟨hlt, hdigits⟩ := number?_eq_some_iff.1 hnumber
    obtain ⟨more, hrest, rfl⟩ := Option.map_eq_some_iff.1 hread
    have hback : ((UInt8.ofNat (n / 65536)).toNat * 256 + (UInt8.ofNat (n / 256)).toNat) * 256 +
        (UInt8.ofNat n).toNat = n := by
      rw [UInt8.toNat_ofNat', UInt8.toNat_ofNat', UInt8.toNat_ofNat']
      simp only [List.length_cons, List.length_nil] at hlt
      omega
    calc c :: d :: e :: f :: rest = [c, d, e, f] ++ rest := rfl
      _ = digits 4 n ++ encode more := congrArg₂ (· ++ ·) hdigits (ih hrest)
      _ = encode (UInt8.ofNat (n / 65536) :: UInt8.ofNat (n / 256) :: UInt8.ofNat n :: more) := by
        rw [encode_three, hback]
  | case5 => cases h

theorem decode?_eq_some_iff {text : List Char} {bytes : List UInt8} :
    decode? text = some bytes ↔ text = encode bytes :=
  ⟨eq_encode_of_decode?, fun h => h ▸ decode?_encode bytes⟩

/-! ## The form of a text -/

theorem digits_subset (k n : Nat) : ∀ c ∈ digits k n, c ∈ alphabet := by
  induction k generalizing n with
  | zero => exact fun c hc => by cases hc
  | succ k ih =>
    intro c hc
    rcases List.mem_append.1 hc with hc | hc
    · exact ih (n / 64) c hc
    · rw [List.mem_singleton.1 hc]
      exact digit_mem_alphabet (Nat.mod_lt n (by decide))

theorem padded_encode : ∀ bytes : List UInt8, Padded bytes.length (encode bytes)
  | [] => ⟨rfl, [], rfl, fun c hc => by cases hc⟩
  | [a] => by
    rw [encode_one]
    exact ⟨by simp [length_digits], _, rfl, digits_subset _ _⟩
  | [a, b] => by
    rw [encode_two]
    exact ⟨by simp [length_digits], _, rfl, digits_subset _ _⟩
  | a :: b :: c :: rest => by
    obtain ⟨hlength, body, hbody, hmem⟩ := padded_encode rest
    have hmissing : (3 - (rest.length + 3) % 3) % 3 = (3 - rest.length % 3) % 3 := by omega
    rw [encode_three]
    refine ⟨?_, digits 4 ((a.toNat * 256 + b.toNat) * 256 + c.toNat) ++ body, ?_, fun d hd => ?_⟩
    · rw [List.length_append, hlength, length_digits]
      simp only [List.length_cons]
      omega
    · simp only [List.length_cons, hmissing, List.append_assoc, ← hbody]
    · rcases List.mem_append.1 hd with hd | hd
      · exact digits_subset _ _ d hd
      · exact hmem d hd

end Egress.Text.Base64
