import Egress.Call.Body
import Egress.Json.Reader
import Mathlib.Data.List.Forall2

/-!
# The text of a JSON value is read in one way

* A written string reads back (`readString_escaped`).
* The text of a value in front of a rest that a value can stand before determines both
  (`write_inj`): numbers and words end where a `isMark` character begins, everything else closes itself.
* Hence two objects of the same text list the same names with values of the same texts
  (`sameFields_of_write_eq`), and stay alike when the same members are put under them
  (`SameFields.joinFields`).
-/

set_option autoImplicit false

namespace Egress.Json

/-! ## Strings -/

theorem hexValue?_hexDigit : ∀ n < 16, Text.hexValue? (Text.hexDigit n) = some n := by decide

theorem hexUnit?_hexDigits {n : Nat} (h : n < 256) :
    hexUnit? '0' '0' (Text.hexDigit (n / 16)) (Text.hexDigit (n % 16)) = some n := by
  have hhigh := hexValue?_hexDigit (n / 16) (by omega)
  have hlow := hexValue?_hexDigit (n % 16) (Nat.mod_lt _ (by decide))
  have hzero : Text.hexValue? '0' = some 0 := rfl
  simp only [hexUnit?, hzero, hhigh, hlow, Option.bind_eq_bind, Option.bind_some, Option.pure_def,
    Option.some.injEq]
  omega

/-- An escaped character is read as one piece, which stands for it. -/
theorem exists_part (c : Char) :
    ∃ p, (∀ cs, readParts (escapeChar c ++ cs) = (readParts cs).map fun r => (p :: r.1, r.2)) ∧
      ∀ ps, joinParts (p :: ps) = (joinParts ps).map (c :: ·) := by
  have named : ∀ letter, letter ≠ 'u' → escaped? letter = some c →
      escapeChar c = ['\\', letter] →
      ∃ p, (∀ cs, readParts (escapeChar c ++ cs) = (readParts cs).map fun r => (p :: r.1, r.2)) ∧
        ∀ ps, joinParts (p :: ps) = (joinParts ps).map (c :: ·) := by
    intro letter hu hl he
    refine ⟨.char c, fun cs => ?_, fun ps => rfl⟩
    rw [he]
    simp only [List.cons_append, List.nil_append]
    rw [readParts]
    · simp [hl, Option.map_eq_bind, Function.comp_def]
    · simp [hu]
  by_cases hquote : c = '"'
  · exact named '"' (by decide) (by rw [hquote]; rfl) (by rw [hquote]; rfl)
  by_cases hslash : c = '\\'
  · exact named '\\' (by decide) (by rw [hslash]; rfl) (by rw [hslash]; rfl)
  by_cases hplain : 0x20 ≤ c.toNat
  · refine ⟨.char c, fun cs => ?_, fun ps => rfl⟩
    have he : escapeChar c = [c] := by simp [escapeChar, hquote, hslash, hplain]
    rw [he, List.cons_append, List.nil_append, readParts]
    · simp [hslash, Nat.not_lt.2 hplain, Option.map_eq_bind, Function.comp_def]
    all_goals simp [hquote, hslash]
  by_cases hb : c = '\x08'
  · exact named 'b' (by decide) (by rw [hb]; rfl) (by rw [hb]; rfl)
  by_cases hf : c = '\x0c'
  · exact named 'f' (by decide) (by rw [hf]; rfl) (by rw [hf]; rfl)
  by_cases hn : c = '\n'
  · exact named 'n' (by decide) (by rw [hn]; rfl) (by rw [hn]; rfl)
  by_cases hr : c = '\r'
  · exact named 'r' (by decide) (by rw [hr]; rfl) (by rw [hr]; rfl)
  by_cases ht : c = '\t'
  · exact named 't' (by decide) (by rw [ht]; rfl) (by rw [ht]; rfl)
  -- the other control characters are written by their code
  have hlt : c.toNat < 32 := Nat.not_le.1 hplain
  have he : escapeChar c = ['\\', 'u', '0', '0', Text.hexDigit (c.toNat / 16),
      Text.hexDigit (c.toNat % 16)] := by
    simp [escapeChar, hquote, hslash, hplain, hb, hf, hn, hr, ht]
  refine ⟨.unit c.toNat, fun cs => ?_, fun ps => ?_⟩
  · rw [he]
    simp only [List.cons_append, List.nil_append, readParts]
    simp [hexUnit?_hexDigits (show c.toNat < 256 by omega), Option.map_eq_bind,
      Function.comp_def]
  · -- it is no half of a surrogate pair, whatever follows
    have hhigh : (0xD800 ≤ c.toNat && c.toNat < 0xDC00) = false := by simp; omega
    have hlow : (0xDC00 ≤ c.toNat && c.toNat < 0xE000) = false := by simp; omega
    rcases ps with _ | ⟨_ | _, ps⟩ <;> simp [joinParts, hhigh, hlow]

/-- A written string reads back, with the rest behind it. -/
theorem readString_escaped (s : String) (rest : List Char) :
    readString (s.toList.flatMap escapeChar ++ '"' :: rest) = some (some s, rest) := by
  have hparts : ∀ cs : List Char, ∃ ps,
      readParts (cs.flatMap escapeChar ++ '"' :: rest) = some (ps, rest) ∧
        joinParts ps = some cs := by
    intro cs
    induction cs with
    | nil => exact ⟨[], by simp [readParts], rfl⟩
    | cons c cs ih =>
      obtain ⟨ps, hread, hjoin⟩ := ih
      obtain ⟨p, hp, hpj⟩ := exists_part c
      refine ⟨p :: ps, ?_, by rw [hpj, hjoin]; rfl⟩
      rw [List.flatMap_cons, List.append_assoc, hp, hread]
      rfl
  obtain ⟨ps, hread, hjoin⟩ := hparts s.toList
  simp [readString, hread, hjoin, String.ofList_toList]

theorem writeString_inj {s s' : String} {rest rest' : List Char}
    (h : writeString s rest = writeString s' rest') : s = s' ∧ rest = rest' := by
  simp only [writeString, List.cons_append, List.cons.injEq, true_and] at h
  have := congrArg readString h
  simpa [readString_escaped] using this

/-! ## Numbers and words -/

/-- The characters that begin or end a value or stand between two. -/
def isMark (c : Char) : Bool := [',', ']', '}', '[', '{', '"', ':'].contains c

/-- The characters of numbers. -/
def isNumeral (c : Char) : Bool := c.isDigit || ['-', '+', '.', 'e'].contains c

theorem isMark_of_isNumeral {c : Char} (h : isNumeral c = true) : isMark c = false := by
  unfold isMark
  rw [← Bool.not_eq_true]
  intro hm
  simp only [List.contains_eq_mem, List.mem_cons, List.not_mem_nil, or_false,
    decide_eq_true_eq] at hm
  obtain rfl | rfl | rfl | rfl | rfl | rfl | rfl := hm <;> revert h <;> decide

theorem isNumeral_of_mem_toDigits {n : Nat} {c : Char} (h : c ∈ Nat.toDigits 10 n) :
    isNumeral c = true := by
  simp [isNumeral, Nat.isDigit_of_mem_toDigits (by decide) (by decide) h]

theorem isNumeral_of_mem_trimZeros {n : Nat} {c : Char}
    (h : c ∈ Double.trimZeros (Nat.toDigits 10 n)) : isNumeral c = true := by
  refine isNumeral_of_mem_toDigits (n := n) ?_
  have := (List.dropWhile_suffix (· == '0')).mem (List.mem_reverse.1 h)
  exact List.mem_reverse.1 this

theorem isNumeral_of_mem_place (layout : Double.Layout) {digits : List Char} {exponent : Int}
    (hdigits : ∀ c ∈ digits, isNumeral c = true) {c : Char}
    (h : c ∈ layout.place digits exponent) : isNumeral c = true := by
  have zero : isNumeral '0' = true := by decide
  have point : isNumeral '.' = true := by decide
  unfold Double.Layout.place at h
  dsimp only at h
  split at h
  · split at h
    · simp only [List.mem_append] at h
      rcases h with (h | h) | h
      · exact hdigits c (List.mem_of_mem_take h)
      · rw [(List.mem_replicate.1 h).2]; exact zero
      · split at h
        · split at h
          · simp only [List.mem_cons, List.not_mem_nil, or_false] at h
            rcases h with rfl | rfl
            · exact point
            · exact zero
          · cases h
        · rcases List.mem_cons.1 h with rfl | h
          · exact point
          · exact hdigits c (List.mem_of_mem_drop h)
    · simp only [List.cons_append, List.mem_cons, List.mem_append] at h
      rcases h with rfl | rfl | h | h
      · exact zero
      · exact point
      · rw [(List.mem_replicate.1 h).2]; exact zero
      · exact hdigits c h
  · simp only [List.mem_append, List.mem_cons] at h
    rcases h with ((h | h) | rfl | h) | h
    · exact hdigits c (List.mem_of_mem_take h)
    · split at h
      · cases h
      · rcases List.mem_cons.1 h with rfl | h
        · exact point
        · exact hdigits c (List.mem_of_mem_drop h)
    · decide
    · split at h
      · rw [List.mem_singleton.1 h]; decide
      · split at h
        · rw [List.mem_singleton.1 h]; decide
        · cases h
    · exact isNumeral_of_mem_toDigits h

theorem isNumeral_of_mem_intDigits {n : Int} {c : Char} (h : c ∈ intDigits n) :
    isNumeral c = true := by
  unfold intDigits at h
  split at h
  · rcases List.mem_cons.1 h with rfl | h
    · decide
    · exact isNumeral_of_mem_toDigits h
  · exact isNumeral_of_mem_toDigits h

theorem intDigits_ne_nil (n : Int) : intDigits n ≠ [] := by
  unfold intDigits
  split
  · simp
  · exact Nat.toDigits_ne_nil

theorem place_ne_nil (layout : Double.Layout) (digits : List Char) (exponent : Int) :
    layout.place digits exponent ≠ [] := by
  intro h
  unfold Double.Layout.place at h
  dsimp only at h
  split at h
  · split at h
    · simp only [List.append_eq_nil_iff, List.take_eq_nil_iff, List.replicate_eq_nil_iff] at h
      obtain ⟨⟨htake | rfl, hrep⟩, -⟩ := h
      · omega
      · simp at hrep
    · cases h
  · simp at h

theorem isNumeral_of_mem_format {layout : Double.Layout} {d : Double} {c : Char}
    (h : c ∈ (layout.format d).toList) : isNumeral c = true := by
  unfold Double.Layout.format at h
  simp only [String.toList_ofList, List.mem_append] at h
  rcases h with h | h
  · split at h
    · rw [List.mem_singleton.1 h]; decide
    · cases h
  · split at h
    · exact isNumeral_of_mem_place layout (by simp [isNumeral]) h
    · exact isNumeral_of_mem_place layout (fun c hc => isNumeral_of_mem_trimZeros hc) h

theorem format_ne_nil (layout : Double.Layout) (d : Double) : (layout.format d).toList ≠ [] := by
  unfold Double.Layout.format
  simp only [String.toList_ofList]
  intro h
  have := (List.append_eq_nil_iff.1 h).2
  split at this <;> exact place_ne_nil _ _ _ this

/-- The text of a value that is a number or a word. -/
def plain? : Json → Option (List Char)
  | .null => some ['n', 'u', 'l', 'l']
  | .bool b => some (if b then ['t', 'r', 'u', 'e'] else ['f', 'a', 'l', 's', 'e'])
  | .int n => some (intDigits n)
  | .double d => some (numberLayout.format d).toList
  | _ => none

theorem write_of_plain {j : Json} {p : List Char} (h : j.plain? = some p) (rest : List Char) :
    j.write rest = p ++ rest := by
  rcases j with _ | ⟨_ | _⟩ | _ | _ | _ | _ | _ <;>
    simp only [plain?, Option.some.injEq, reduceCtorEq] at h <;> subst h <;> rfl

theorem plain_marks {j : Json} {p : List Char} (h : j.plain? = some p) :
    p ≠ [] ∧ ∀ c ∈ p, isMark c = false := by
  rcases j with _ | ⟨_ | _⟩ | n | d | _ | _ | _ <;>
    simp only [plain?, Option.some.injEq, reduceCtorEq] at h <;> subst h
  · simp [isMark]
  · simp [isMark]
  · simp [isMark]
  · exact ⟨intDigits_ne_nil n, fun c hc => isMark_of_isNumeral (isNumeral_of_mem_intDigits hc)⟩
  · exact ⟨format_ne_nil _ d, fun c hc => isMark_of_isNumeral (isNumeral_of_mem_format hc)⟩

/-! ## Values -/

/-- A text that a value can stand before: it is empty or begins with a mark. -/
def Stops (rest : List Char) : Prop := ∀ c ∈ rest.head?, isMark c = true

theorem stops_cons {c : Char} {rest : List Char} (h : isMark c = true) : Stops (c :: rest) := by
  simpa [Stops] using h

theorem stops_writeItems (items : List Json) (rest : List Char) : Stops (writeItems items rest) := by
  cases items <;> exact stops_cons (by decide)

theorem stops_writeFields (fields : List (String × Json)) (rest : List Char) :
    Stops (writeFields fields rest) := by
  rcases fields with _ | ⟨⟨key, j⟩, fields⟩ <;> exact stops_cons (by decide)

mutual
theorem write_append : ∀ (j : Json) (rest : List Char), j.write rest = j.write [] ++ rest
  | .null, _ => rfl
  | .bool true, _ => rfl
  | .bool false, _ => rfl
  | .int _, _ => by simp [write]
  | .double _, _ => by simp [write]
  | .string _, _ => by simp [write, writeString]
  | .array [], _ => rfl
  | .array (j :: items), rest => by
    rw [write, write, write_append j (writeItems items rest), writeItems_append items rest,
      write_append j (writeItems items [])]
    simp
  | .object [], _ => rfl
  | .object ((key, j) :: fields), rest => by
    rw [write, write, write_append j (writeFields fields rest), writeFields_append fields rest,
      write_append j (writeFields fields [])]
    simp [writeString]

theorem writeItems_append : ∀ (items : List Json) (rest : List Char),
    writeItems items rest = writeItems items [] ++ rest
  | [], _ => rfl
  | j :: items, rest => by
    rw [writeItems, writeItems, write_append j (writeItems items rest),
      writeItems_append items rest, write_append j (writeItems items [])]
    simp

theorem writeFields_append : ∀ (fields : List (String × Json)) (rest : List Char),
    writeFields fields rest = writeFields fields [] ++ rest
  | [], _ => rfl
  | (key, j) :: fields, rest => by
    rw [writeFields, writeFields, write_append j (writeFields fields rest),
      writeFields_append fields rest, write_append j (writeFields fields [])]
    simp [writeString]
end

theorem plain_append_inj {p p' rest rest' : List Char} (hp : ∀ c ∈ p, isMark c = false)
    (hp' : ∀ c ∈ p', isMark c = false) (hr : Stops rest) (hr' : Stops rest')
    (h : p ++ rest = p' ++ rest') : p = p' ∧ rest = rest' := by
  induction p generalizing p' with
  | nil =>
    cases p' with
    | nil => exact ⟨rfl, h⟩
    | cons c p' =>
      have hc : isMark c = true := hr c (by rw [← List.nil_append rest, h]; rfl)
      rw [hp' c List.mem_cons_self] at hc
      cases hc
  | cons c p ih =>
    cases p' with
    | nil =>
      have hc : isMark c = true := hr' c (by rw [← List.nil_append rest', ← h]; rfl)
      rw [hp c List.mem_cons_self] at hc
      cases hc
    | cons c' p' =>
      simp only [List.cons_append, List.cons.injEq] at h
      obtain ⟨rfl, h⟩ := h
      obtain ⟨rfl, hrest⟩ := ih (fun x hx => hp x (List.mem_cons_of_mem _ hx))
        (fun x hx => hp' x (List.mem_cons_of_mem _ hx)) h
      exact ⟨rfl, hrest⟩

/-- The first character tells a number or a word from the values that begin with a mark. -/
theorem write_ne_of_plain {j : Json} (hj : j.plain?.isSome = true) {c : Char}
    (hc : isMark c = true) (rest cs : List Char) : j.write rest ≠ c :: cs := by
  obtain ⟨p, hp⟩ := Option.isSome_iff_exists.1 hj
  obtain ⟨hne, hmarks⟩ := plain_marks hp
  rw [write_of_plain hp]
  cases p with
  | nil => exact absurd rfl hne
  | cons c' p =>
    intro h
    simp only [List.cons_append, List.cons.injEq] at h
    have := hmarks c' List.mem_cons_self
    rw [h.1, hc] at this
    cases this

theorem write_ne_bracket (j : Json) (rest cs : List Char) : j.write rest ≠ ']' :: cs := by
  rcases j with _ | _ | _ | _ | _ | ⟨_ | _⟩ | ⟨_ | ⟨⟨_, _⟩, _⟩⟩
  case string | array.nil | array.cons | object.nil | object.cons => simp [write, writeString]
  all_goals exact write_ne_of_plain rfl (by decide) _ _

/-- The objects list the same names, with values of the same texts. -/
def SameFields (fields fields' : List (String × Json)) : Prop :=
  List.Forall₂ (fun m m' => m.1 = m'.1 ∧ m.2.write [] = m'.2.write []) fields fields'

theorem writeFields_congr {fields fields' : List (String × Json)} (h : SameFields fields fields')
    (rest : List Char) : writeFields fields rest = writeFields fields' rest := by
  induction h with
  | nil => rfl
  | @cons m m' fields fields' hm _ ih =>
    obtain ⟨key, j⟩ := m
    obtain ⟨key', j'⟩ := m'
    obtain ⟨rfl, hj⟩ := hm
    rw [writeFields, writeFields, ih, write_append j, write_append j', hj]

theorem write_object_congr {fields fields' : List (String × Json)} (h : SameFields fields fields')
    (rest : List Char) : (object fields).write rest = (object fields').write rest := by
  cases h with
  | nil => rfl
  | @cons m m' fields fields' hm hfields =>
    obtain ⟨key, j⟩ := m
    obtain ⟨key', j'⟩ := m'
    obtain ⟨rfl, hj⟩ := hm
    rw [write, write, writeFields_congr hfields, write_append j, write_append j', hj]

theorem write_inj_of_plain {j j' : Json} (hj : j.plain?.isSome = true) {rest rest' : List Char}
    (hr : Stops rest) (hr' : Stops rest') (h : j.write rest = j'.write rest') :
    j.write [] = j'.write [] ∧ rest = rest' := by
  have hj' : j'.plain?.isSome = true := by
    rcases j' with _ | _ | _ | _ | _ | ⟨_ | _⟩ | ⟨_ | ⟨⟨_, _⟩, _⟩⟩
    case string | array.nil | array.cons | object.nil | object.cons =>
      exact absurd h (write_ne_of_plain hj (by decide) _ _)
    all_goals rfl
  obtain ⟨p, hp⟩ := Option.isSome_iff_exists.1 hj
  obtain ⟨p', hp'⟩ := Option.isSome_iff_exists.1 hj'
  simp only [write_of_plain hp, write_of_plain hp'] at h ⊢
  obtain ⟨rfl, rfl⟩ := plain_append_inj (plain_marks hp).2 (plain_marks hp').2 hr hr' h
  exact ⟨rfl, rfl⟩

mutual
/-- A text is the text of a value in front of a rest in one way. -/
theorem write_inj : ∀ (j j' : Json) {rest rest' : List Char}, Stops rest → Stops rest' →
    j.write rest = j'.write rest' → j.write [] = j'.write [] ∧ rest = rest'
  | .null, _, _, _, hr, hr', h => write_inj_of_plain rfl hr hr' h
  | .bool _, _, _, _, hr, hr', h => write_inj_of_plain rfl hr hr' h
  | .int _, _, _, _, hr, hr', h => write_inj_of_plain rfl hr hr' h
  | .double _, _, _, _, hr, hr', h => write_inj_of_plain rfl hr hr' h
  | .string s, j', rest, rest', _, _, h => by
    rcases j' with _ | _ | _ | _ | s' | ⟨_ | _⟩ | ⟨_ | ⟨⟨_, _⟩, _⟩⟩
    case string =>
      obtain ⟨rfl, rfl⟩ := writeString_inj h
      exact ⟨rfl, rfl⟩
    case array.nil | array.cons | object.nil | object.cons => simp [write, writeString] at h
    all_goals exact absurd h.symm (write_ne_of_plain rfl (by decide) _ _)
  | .array [], j', rest, rest', _, _, h => by
    rcases j' with _ | _ | _ | _ | _ | ⟨_ | ⟨i', items'⟩⟩ | ⟨_ | ⟨⟨_, _⟩, _⟩⟩
    case array.nil => exact ⟨rfl, by simpa [write] using h⟩
    case array.cons =>
      simp only [write, List.cons.injEq, true_and] at h
      exact absurd h.symm (write_ne_bracket i' _ _)
    case string | object.nil | object.cons => simp [write, writeString] at h
    all_goals exact absurd h.symm (write_ne_of_plain rfl (by decide) _ _)
  | .array (i :: items), j', rest, rest', _, _, h => by
    rcases j' with _ | _ | _ | _ | _ | ⟨_ | ⟨i', items'⟩⟩ | ⟨_ | ⟨⟨_, _⟩, _⟩⟩
    case array.nil =>
      simp only [write, List.cons.injEq, true_and] at h
      exact absurd h (write_ne_bracket i _ _)
    case array.cons =>
      simp only [write, List.cons.injEq, true_and] at h
      obtain ⟨hi, htail⟩ := write_inj i i' (stops_writeItems items rest)
        (stops_writeItems items' rest') h
      obtain ⟨hitems, hrest⟩ := writeItems_inj items items' htail
      refine ⟨?_, hrest⟩
      rw [write, write, write_append i, write_append i', hi, hitems]
    case string | object.nil | object.cons => simp [write, writeString] at h
    all_goals exact absurd h.symm (write_ne_of_plain rfl (by decide) _ _)
  | .object [], j', rest, rest', _, _, h => by
    rcases j' with _ | _ | _ | _ | _ | ⟨_ | _⟩ | ⟨_ | ⟨⟨_, _⟩, _⟩⟩
    case object.nil => exact ⟨rfl, by simpa [write] using h⟩
    case string | array.nil | array.cons | object.cons => simp [write, writeString] at h
    all_goals exact absurd h.symm (write_ne_of_plain rfl (by decide) _ _)
  | .object ((key, v) :: fields), j', rest, rest', _, _, h => by
    rcases j' with _ | _ | _ | _ | _ | ⟨_ | _⟩ | ⟨_ | ⟨⟨key', v'⟩, fields'⟩⟩
    case object.cons =>
      simp only [write, List.cons.injEq, true_and] at h
      obtain ⟨hkey, hbehind⟩ := writeString_inj h
      simp only [List.cons.injEq, true_and] at hbehind
      obtain ⟨hv, htail⟩ := write_inj v v' (stops_writeFields fields rest)
        (stops_writeFields fields' rest') hbehind
      obtain ⟨hfields, hrest⟩ := writeFields_inj fields fields' htail
      exact ⟨write_object_congr (.cons ⟨hkey, hv⟩ hfields) [], hrest⟩
    case string | array.nil | array.cons | object.nil => simp [write, writeString] at h
    all_goals exact absurd h.symm (write_ne_of_plain rfl (by decide) _ _)

theorem writeItems_inj : ∀ (items items' : List Json) {rest rest' : List Char},
    writeItems items rest = writeItems items' rest' →
      writeItems items [] = writeItems items' [] ∧ rest = rest'
  | [], [], _, _, h => ⟨rfl, by simpa [writeItems] using h⟩
  | [], _ :: _, _, _, h => by simp [writeItems] at h
  | _ :: _, [], _, _, h => by simp [writeItems] at h
  | i :: items, i' :: items', rest, rest', h => by
    simp only [writeItems, List.cons.injEq, true_and] at h
    obtain ⟨hi, htail⟩ := write_inj i i' (stops_writeItems items rest)
      (stops_writeItems items' rest') h
    obtain ⟨hitems, hrest⟩ := writeItems_inj items items' htail
    refine ⟨?_, hrest⟩
    rw [writeItems, writeItems, write_append i, write_append i', hi, hitems]

theorem writeFields_inj : ∀ (fields fields' : List (String × Json)) {rest rest' : List Char},
    writeFields fields rest = writeFields fields' rest' → SameFields fields fields' ∧ rest = rest'
  | [], [], _, _, h => ⟨.nil, by simpa [writeFields] using h⟩
  | [], (_, _) :: _, _, _, h => by simp [writeFields] at h
  | (_, _) :: _, [], _, _, h => by simp [writeFields] at h
  | (key, v) :: fields, (key', v') :: fields', rest, rest', h => by
    simp only [writeFields, List.cons.injEq, true_and] at h
    obtain ⟨hkey, hbehind⟩ := writeString_inj h
    simp only [List.cons.injEq, true_and] at hbehind
    obtain ⟨hv, htail⟩ := write_inj v v' (stops_writeFields fields rest)
      (stops_writeFields fields' rest') hbehind
    obtain ⟨hfields, hrest⟩ := writeFields_inj fields fields' htail
    exact ⟨.cons ⟨hkey, hv⟩ hfields, hrest⟩
end

theorem sameFields_of_write_eq {fields fields' : List (String × Json)}
    (h : (object fields).write [] = (object fields').write []) : SameFields fields fields' := by
  rcases fields with _ | ⟨⟨key, v⟩, fields⟩ <;> rcases fields' with _ | ⟨⟨key', v'⟩, fields'⟩
  · exact .nil
  · simp [write, writeString] at h
  · simp [write, writeString] at h
  · have hfields : writeFields ((key, v) :: fields) [] = writeFields ((key', v') :: fields') [] := by
      simp only [write, List.cons.injEq, true_and] at h
      simp only [writeFields, h]
    exact (writeFields_inj _ _ hfields).1

/-! ## Members under members -/

theorem SameFields.insert {fields fields' : List (String × Json)} (h : SameFields fields fields')
    (key : String) {v v' : Json} (hv : v.write [] = v'.write []) :
    SameFields (Fields.insert key v fields) (Fields.insert key v' fields') := by
  induction h with
  | nil => exact .cons ⟨rfl, hv⟩ .nil
  | @cons m m' fields fields' hm hfields ih =>
    obtain ⟨k, j⟩ := m
    obtain ⟨k', j'⟩ := m'
    obtain ⟨hk, hj⟩ := hm
    subst hk
    simp only [Fields.insert]
    split
    · exact .cons ⟨rfl, hv⟩ (.cons ⟨rfl, hj⟩ hfields)
    · split
      · exact .cons ⟨rfl, hv⟩ hfields
      · exact .cons ⟨rfl, hj⟩ ih

/-- Objects of the same text, put over the same members, have the same text. -/
theorem SameFields.joinFields {fields fields' : List (String × Json)}
    (h : SameFields fields fields') {base base' : List (String × Json)}
    (hbase : SameFields base base') :
    SameFields (Body.joinFields base fields) (Body.joinFields base' fields') := by
  induction h generalizing base base' with
  | nil => exact hbase
  | @cons m m' fields fields' hm _ ih =>
    obtain ⟨k, j⟩ := m
    obtain ⟨k', j'⟩ := m'
    obtain ⟨hk, hj⟩ := hm
    subst hk
    exact ih (hbase.insert k hj)

theorem SameFields.refl (fields : List (String × Json)) : SameFields fields fields :=
  List.forall₂_same.2 fun _ _ => ⟨rfl, rfl⟩

end Egress.Json
