import Egress.Proofs.Dict
import Egress.Proofs.Json.Writing
import Mathlib.Algebra.Group.Nat.Defs
import Mathlib.Data.List.TakeDrop

/-!
# What is written reads back

`Tree.read?_pretty`: the text of a value whose numbers are whole (`Json.Whole`) and which nests no deeper
than the reader keeps (`Json.nesting`) is read as the tree of that value.

* `readNumber_intDigits`: the digits of a number end where something else begins (`EndsNumber`).
* `readValue_congr`: blanks and line breaks between the parts are passed over.
* `readValue_writePretty`, with its companions for items and members: one step of the writer against the
  steps of the reader that undo it. The fuel it asks for is the length of the text that is consumed.
-/

set_option autoImplicit false

namespace Egress.Json

/-! ## Digits -/

theorem isDigit_of_mem_toDigits {n : Nat} {c : Char} (h : c ∈ Nat.toDigits 10 n) :
    isDigit c = true := by
  have := Nat.isDigit_of_mem_toDigits (by decide) (by decide) h
  simpa [isDigit, Char.isDigit, Char.le_def] using this

theorem digitsValue_eq (cs : List Char) : digitsValue cs = Nat.ofDigitChars 10 cs 0 := by
  rw [Nat.ofDigitChars_eq_foldl]
  rfl

theorem digitsValue_toDigits (n : Nat) : digitsValue (Nat.toDigits 10 n) = n := by
  rw [digitsValue_eq, Nat.ofDigitChars_ten_toDigits]

/-- Only zero begins with a zero. -/
theorem toDigits_ne_zero_cons (n : Nat) (cs : List Char) (h : 0 < n) :
    Nat.toDigits 10 n ≠ '0' :: cs := by
  induction n using Nat.strongRecOn generalizing cs with
  | _ n ih =>
    intro heq
    by_cases hn : n < 10
    · rw [Nat.toDigits_of_lt_base hn, List.cons.injEq, Nat.digitChar_eq_zero] at heq
      omega
    · rw [Nat.toDigits_of_base_le (by decide) (Nat.not_lt.1 hn)] at heq
      obtain ⟨c, ds, hds⟩ := List.exists_cons_of_ne_nil (Nat.toDigits_ne_nil (n := n / 10) (b := 10))
      rw [hds, List.cons_append, List.cons.injEq] at heq
      obtain ⟨rfl, -⟩ := heq
      exact ih (n / 10) (by omega) ds (by omega) hds

/-! ## Numbers -/

/-- A text that a number can stand before: no digit, point or exponent begins it. -/
def EndsNumber (rest : List Char) : Prop :=
  ∀ c ∈ rest.head?, isDigit c = false ∧ c ≠ '.' ∧ c ≠ 'e' ∧ c ≠ 'E'

theorem endsNumber_cons {c : Char} {rest : List Char}
    (h : isDigit c = false ∧ c ≠ '.' ∧ c ≠ 'e' ∧ c ≠ 'E') : EndsNumber (c :: rest) := by
  simpa [EndsNumber] using h

theorem span_digits {digits rest : List Char} (hd : ∀ c ∈ digits, isDigit c = true)
    (hr : ∀ c ∈ rest.head?, isDigit c = false) :
    (digits ++ rest).span isDigit = (digits, rest) := by
  rw [List.span_eq_takeWhile_dropWhile, List.takeWhile_append_of_pos hd,
    List.dropWhile_append_of_pos hd]
  cases rest with
  | nil => simp
  | cons c rest =>
    have hc : isDigit c = false := hr c rfl
    simp [hc]

theorem readFraction_of_endsNumber {rest : List Char} (h : EndsNumber rest) :
    readFraction rest = some (none, rest) := by
  unfold readFraction
  split
  · exact absurd rfl (h '.' rfl).2.1
  · rfl

theorem readExponent_of_endsNumber {rest : List Char} (h : EndsNumber rest) :
    readExponent rest = some (none, rest) := by
  cases rest with
  | nil => rfl
  | cons c rest =>
    obtain ⟨-, -, he, hE⟩ := h c rfl
    simp [readExponent, he, hE]

/-- The sign, the digits and nothing else are read off the front. -/
theorem readNumber_intDigits (n : Int) {rest : List Char} (h : EndsNumber rest) :
    readNumber (intDigits n ++ rest) =
      some (⟨decide (n < 0), Nat.toDigits 10 n.natAbs, none, none⟩, rest) := by
  obtain ⟨c, ds, hds⟩ := List.exists_cons_of_ne_nil (Nat.toDigits_ne_nil (n := n.natAbs) (b := 10))
  have hdigits : ∀ d ∈ c :: ds, isDigit d = true := by
    rw [← hds]
    exact fun d => isDigit_of_mem_toDigits
  have hsign : c ≠ '-' := by
    rintro rfl
    exact absurd (hdigits '-' List.mem_cons_self) (by decide)
  have hzero : ∀ c' ds', c :: ds ≠ '0' :: c' :: ds' := by
    intro c' ds' heq
    rcases Nat.eq_zero_or_pos n.natAbs with h0 | hpos
    · simp [h0, Nat.toDigits_zero, heq] at hds
    · exact toDigits_ne_zero_cons _ _ hpos (hds.trans heq)
  have hspan : (c :: (ds ++ rest)).span isDigit = (c :: ds, rest) :=
    span_digits hdigits fun d hd => (h d hd).1
  have hrest : readFraction rest = some (none, rest) ∧ readExponent rest = some (none, rest) :=
    ⟨readFraction_of_endsNumber h, readExponent_of_endsNumber h⟩
  by_cases hn : n < 0
  · simp only [readNumber, intDigits, hn, if_true, hds, List.cons_append, hspan]
    simp [hrest]
  · have hunsigned : ∀ cs, c :: (ds ++ rest) = '-' :: cs → False :=
      fun cs hcs => hsign (List.cons.inj hcs).1
    simp only [readNumber, intDigits, hn, if_false, hds, List.cons_append, hspan]
    simp [hrest]

/-- Whether a text keeps the exact value of the number. -/
def Kept64 (n : Int) : Prop := -9223372036854775808 ≤ n ∧ n < 18446744073709551616

theorem tree_of_digits {n : Int} (h : Kept64 n) :
    NumberText.tree ⟨decide (n < 0), Nat.toDigits 10 n.natAbs, none, none⟩ = .int n := by
  obtain ⟨hlow, hhigh⟩ := h
  have hvalue : NumberText.value? ⟨decide (n < 0), Nat.toDigits 10 n.natAbs, none, none⟩ =
      some (.int n) := by
    simp only [NumberText.value?, digitsValue_toDigits]
    by_cases hn : n < 0
    · have hcount : 0 < n.natAbs ∧ n.natAbs ≤ 9223372036854775808 := by omega
      have hback : -(n.natAbs : Int) = n := by omega
      simp only [hn, hcount, hback, decide_true]
      rfl
    · have hcount : n.natAbs < UInt64.size := by
        simp only [UInt64.size]
        omega
      have hback : (n.natAbs : Int) = n := by omega
      simp only [hn, hcount, decide_true, decide_false, Bool.not_false, Bool.and_true, if_true, hback]
  rw [NumberText.tree, hvalue]

/-! ## Blanks -/

theorem skipSpace_newline (depth : Nat) (cs : List Char) :
    skipSpace (newline depth cs) = skipSpace cs := by
  have hblanks : ∀ c ∈ '\n' :: List.replicate (2 * depth) ' ', isSpace c = true := by
    intro c hc
    rcases List.mem_cons.1 hc with rfl | hc
    · rfl
    · rw [List.eq_of_mem_replicate hc]
      rfl
  exact List.dropWhile_append_of_pos hblanks

theorem skipSpace_cons {c : Char} (h : isSpace c = false) (cs : List Char) :
    skipSpace (c :: cs) = c :: cs := by
  simp [skipSpace, h]

theorem skipSpace_writeString (s : String) (cs : List Char) :
    skipSpace (writeString s cs) = writeString s cs := by
  rw [writeString, List.cons_append, skipSpace_cons (by decide)]

/-- What stands before a value makes no difference if it is blank. -/
theorem readValue_congr (fuel depth : Nat) {cs cs' : List Char} (h : skipSpace cs = skipSpace cs') :
    readValue fuel depth cs = readValue fuel depth cs' := by
  cases fuel with
  | zero => simp [readValue]
  | succ fuel => rw [readValue, readValue, h]

/-! ## Values -/

mutual
/-- Every number within the value is a whole one that a text keeps exactly. -/
def Whole : Json → Prop
  | .int n => Kept64 n
  | .double _ => False
  | .array items => WholeItems items
  | .object fields => WholeFields fields
  | _ => True

def WholeItems : List Json → Prop
  | [] => True
  | j :: rest => j.Whole ∧ WholeItems rest

def WholeFields : List (String × Json) → Prop
  | [] => True
  | (_, j) :: rest => j.Whole ∧ WholeFields rest
end

mutual
/-- How deep arrays and objects nest within the value. -/
def nesting : Json → Nat
  | .array items => nestingItems items + 1
  | .object fields => nestingFields fields + 1
  | _ => 0

def nestingItems : List Json → Nat
  | [] => 0
  | j :: rest => max j.nesting (nestingItems rest)

def nestingFields : List (String × Json) → Nat
  | [] => 0
  | (_, j) :: rest => max j.nesting (nestingFields rest)
end

theorem endsNumber_writePrettyItems (depth : Nat) (items : List Json) (rest : List Char) :
    EndsNumber (writePrettyItems depth items rest) := by
  cases items <;> exact endsNumber_cons (by decide)

theorem endsNumber_writePrettyFields (depth : Nat) (fields : List (String × Json))
    (rest : List Char) : EndsNumber (writePrettyFields depth fields rest) := by
  rcases fields with _ | ⟨⟨key, j⟩, fields⟩ <;> exact endsNumber_cons (by decide)

mutual
theorem length_lt_writePretty : ∀ (depth : Nat) (j : Json) (rest : List Char),
    rest.length < (writePretty depth j rest).length
  | _, .null, rest | _, .bool true, rest | _, .bool false, rest => by
    simp only [writePretty, write, List.length_cons]
    omega
  | _, .int n, rest => by
    have := List.length_pos_iff.2 (plain_marks (j := .int n) rfl).1
    simp only [writePretty, write, List.length_append]
    omega
  | _, .double d, rest => by
    have := List.length_pos_iff.2 (format_ne_nil numberLayout d)
    simp only [writePretty, write, List.length_append]
    omega
  | _, .string s, rest => by
    simp only [writePretty, writeString, List.cons_append, List.length_cons, List.length_append]
    omega
  | _, .array [], rest | _, .object [], rest => by
    simp only [writePretty, List.length_cons]
    omega
  | depth, .array (j :: items), rest => by
    have hitem := length_lt_writePretty (depth + 1) j (writePrettyItems depth items rest)
    have hitems := length_lt_writePrettyItems depth items rest
    simp only [writePretty, newline, List.cons_append, List.length_cons, List.length_append]
    omega
  | depth, .object ((key, j) :: fields), rest => by
    have hmember := length_lt_writePretty (depth + 1) j (writePrettyFields depth fields rest)
    have hmembers := length_lt_writePrettyFields depth fields rest
    simp only [writePretty, newline, writeString, List.cons_append, List.length_cons,
      List.length_append]
    omega

theorem length_lt_writePrettyItems : ∀ (depth : Nat) (items : List Json) (rest : List Char),
    rest.length < (writePrettyItems depth items rest).length
  | depth, [], rest => by
    simp only [writePrettyItems, newline, List.cons_append, List.length_cons, List.length_append]
    omega
  | depth, j :: items, rest => by
    have hitem := length_lt_writePretty (depth + 1) j (writePrettyItems depth items rest)
    have hitems := length_lt_writePrettyItems depth items rest
    simp only [writePrettyItems, newline, List.cons_append, List.length_cons, List.length_append]
    omega

theorem length_lt_writePrettyFields : ∀ (depth : Nat) (fields : List (String × Json))
    (rest : List Char), rest.length < (writePrettyFields depth fields rest).length
  | depth, [], rest => by
    simp only [writePrettyFields, newline, List.cons_append, List.length_cons, List.length_append]
    omega
  | depth, (key, j) :: fields, rest => by
    have hmember := length_lt_writePretty (depth + 1) j (writePrettyFields depth fields rest)
    have hmembers := length_lt_writePrettyFields depth fields rest
    simp only [writePrettyFields, newline, writeString, List.cons_append, List.length_cons,
      List.length_append]
    omega
end

theorem ne_of_isNumeral {c c' : Char} (h : isNumeral c = true) (h' : isNumeral c' = false) :
    c ≠ c' := by
  rintro rfl
  rw [h] at h'
  cases h'

theorem isSpace_of_isNumeral {c : Char} (h : isNumeral c = true) : isSpace c = false := by
  have hblank : c ≠ ' ' := ne_of_isNumeral h (by decide)
  have hnewline : c ≠ '\n' := ne_of_isNumeral h (by decide)
  have htab : c ≠ '\t' := ne_of_isNumeral h (by decide)
  have hreturn : c ≠ '\r' := ne_of_isNumeral h (by decide)
  simp [isSpace, hblank, hnewline, htab, hreturn]

/-- The character that a number begins with tells it from the other values. -/
theorem readValue_of_isNumeral {c : Char} (h : isNumeral c = true) (fuel depth : Nat)
    (cs : List Char) :
    readValue (fuel + 1) depth (c :: cs) =
      (readNumber (c :: cs)).map fun r => (r.1.tree, r.2) := by
  rw [readValue, skipSpace_cons (isSpace_of_isNumeral h)]
  split
  case h_7 => simp [Option.map_eq_bind, Function.comp_def]
  all_goals
    rename_i heq
    exact absurd (List.cons.inj heq).1 (ne_of_isNumeral h (by decide))

/-- A written value begins with neither a blank nor the end of an array. -/
theorem exists_writePretty (depth : Nat) (j : Json) (rest : List Char) :
    ∃ c cs, writePretty depth j rest = c :: cs ∧ isSpace c = false ∧ c ≠ ']' := by
  have numeral : ∀ p : List Char, p ≠ [] → (∀ c ∈ p, isNumeral c = true) →
      ∃ c cs, p ++ rest = c :: cs ∧ isSpace c = false ∧ c ≠ ']' := by
    intro p hne hp
    obtain ⟨c, cs, rfl⟩ := List.exists_cons_of_ne_nil hne
    have hc := hp c List.mem_cons_self
    exact ⟨c, cs ++ rest, rfl, isSpace_of_isNumeral hc, ne_of_isNumeral hc (by decide)⟩
  rcases j with _ | ⟨_ | _⟩ | n | d | s | ⟨_ | _⟩ | ⟨_ | ⟨⟨_, _⟩, _⟩⟩
  case int => exact numeral _ (intDigits_ne_nil n) fun _ => isNumeral_of_mem_intDigits
  case double => exact numeral _ (format_ne_nil _ d) fun _ => isNumeral_of_mem_format
  all_goals exact ⟨_, _, rfl, by decide, by decide⟩

/-- A quoted key, the colon, and the value that the rest of the text begins with. -/
theorem readMember_writeString {fuel depth : Nat} {text cs rest : List Char} {key : String} {t : Tree}
    (htext : skipSpace text = writeString key (':' :: ' ' :: cs))
    (h : readValue fuel depth cs = some (t, rest)) :
    readMember (fuel + 1) depth text = some ((some key, t), rest) := by
  have hblank : skipSpace (' ' :: cs) = skipSpace cs := rfl
  have hvalue := (readValue_congr fuel depth hblank).trans h
  rw [readMember, htext, writeString, List.cons_append]
  simp [readString_escaped, skipSpace_cons, isSpace, hvalue]

mutual
theorem readValue_writePretty : ∀ (j : Json) (depth fuel : Nat) (rest : List Char), j.Whole →
    depth + j.nesting ≤ Tree.depthLimit → EndsNumber rest →
    (writePretty depth j rest).length ≤ rest.length + fuel →
      readValue fuel depth (writePretty depth j rest) = some (Tree.ofJson j, rest)
  | j, depth, 0, rest, _, _, _, hfuel => by
    have := length_lt_writePretty depth j rest
    omega
  | .null, depth, fuel + 1, rest, _, _, _, _
  | .bool true, depth, fuel + 1, rest, _, _, _, _
  | .bool false, depth, fuel + 1, rest, _, _, _, _ => by
    simp [writePretty, write, readValue, skipSpace_cons, isSpace, Tree.ofJson]
  | .int n, depth, fuel + 1, rest, hwhole, _, hends, _ => by
    obtain ⟨c, cs, hcs⟩ := List.exists_cons_of_ne_nil (intDigits_ne_nil n)
    have hc : isNumeral c = true := isNumeral_of_mem_intDigits (n := n) (by simp [hcs])
    have hnumber := readNumber_intDigits n hends
    rw [writePretty, write, Tree.ofJson]
    rw [hcs, List.cons_append] at hnumber ⊢
    rw [readValue_of_isNumeral hc, hnumber, Option.map_some, tree_of_digits hwhole]
  | .double _, _, _ + 1, _, hwhole, _, _, _ => hwhole.elim
  | .string s, depth, fuel + 1, rest, _, _, _, _ => by
    rw [writePretty, writeString, List.cons_append, readValue, skipSpace_cons (by decide)]
    simp [readString_escaped, Tree.ofJson]
  | .array [], depth, fuel + 1, rest, _, hdepth, _, hfuel => by
    rw [nesting] at hdepth
    have hkept : depth < Tree.depthLimit := by omega
    simp only [writePretty, List.length_cons] at hfuel
    obtain ⟨fuel, rfl⟩ : ∃ n, fuel = n + 1 := ⟨fuel - 1, by omega⟩
    rw [writePretty, readValue, skipSpace_cons (by decide)]
    simp [readItems, skipSpace_cons, isSpace, hkept, Tree.ofJson, Tree.ofItems]
  | .array (j :: items), depth, fuel + 1, rest, hwhole, hdepth, _, hfuel => by
    have hitems := length_lt_writePrettyItems depth items rest
    have hitem := length_lt_writePretty (depth + 1) j (writePrettyItems depth items rest)
    simp only [writePretty, newline, List.cons_append, List.length_cons, List.length_append] at hfuel
    obtain ⟨fuel, rfl⟩ : ∃ n, fuel = n + 1 := ⟨fuel - 1, by omega⟩
    rw [nesting, nestingItems] at hdepth
    have hkept : depth < Tree.depthLimit := by omega
    have hread := readValue_writePretty j (depth + 1) fuel (writePrettyItems depth items rest)
      hwhole.1 (by omega) (endsNumber_writePrettyItems depth items rest) (by omega)
    have hmore := readMoreItems_writePrettyItems items depth fuel rest hwhole.2 (by omega) (by omega)
      (Tree.ofJson j)
    obtain ⟨c, cs, hcs, hspace, hend⟩ :=
      exists_writePretty (depth + 1) j (writePrettyItems depth items rest)
    rw [writePretty, readValue, skipSpace_cons (by decide)]
    rw [hcs] at hread ⊢
    simp [readItems, skipSpace_newline, skipSpace_cons hspace, hend, hread, hmore, hkept, Tree.ofJson,
      Tree.ofItems]
  | .object [], depth, fuel + 1, rest, _, hdepth, _, hfuel => by
    rw [nesting] at hdepth
    have hkept : depth < Tree.depthLimit := by omega
    simp only [writePretty, List.length_cons] at hfuel
    obtain ⟨fuel, rfl⟩ : ∃ n, fuel = n + 1 := ⟨fuel - 1, by omega⟩
    rw [writePretty, readValue, skipSpace_cons (by decide)]
    simp [readMembers, skipSpace_cons, isSpace, hkept, Tree.ofJson, Tree.ofFields]
  | .object ((key, j) :: fields), depth, fuel + 1, rest, hwhole, hdepth, _, hfuel => by
    have hfields := length_lt_writePrettyFields depth fields rest
    have hvalue := length_lt_writePretty (depth + 1) j (writePrettyFields depth fields rest)
    simp only [writePretty, newline, writeString, List.cons_append, List.length_cons,
      List.length_append] at hfuel
    obtain ⟨fuel, rfl⟩ : ∃ n, fuel = n + 2 := ⟨fuel - 2, by omega⟩
    rw [nesting, nestingFields] at hdepth
    have hkept : depth < Tree.depthLimit := by omega
    have hread := readValue_writePretty j (depth + 1) fuel (writePrettyFields depth fields rest)
      hwhole.1 (by omega) (endsNumber_writePrettyFields depth fields rest) (by omega)
    have hmember := readMember_writeString (skipSpace_writeString key _) hread
    have hmore := readMoreMembers_writePrettyFields fields depth (fuel + 1) rest hwhole.2 (by omega)
      (by omega) (some key, Tree.ofJson j)
    rw [writePretty, readValue, skipSpace_cons (by decide)]
    rw [writeString, List.cons_append] at hmember ⊢
    simp [readMembers, skipSpace_newline, skipSpace_cons, isSpace, hmember, hmore, hkept, Tree.ofJson,
      Tree.ofFields]

theorem readMoreItems_writePrettyItems : ∀ (items : List Json) (depth fuel : Nat)
    (rest : List Char), WholeItems items → depth + 1 + nestingItems items ≤ Tree.depthLimit →
    (writePrettyItems depth items rest).length ≤ rest.length + fuel → ∀ t,
      readMoreItems fuel (depth + 1) t (writePrettyItems depth items rest) =
        some (t :: Tree.ofItems items, rest)
  | items, depth, 0, rest, _, _, hfuel, _ => by
    have := length_lt_writePrettyItems depth items rest
    omega
  | [], depth, fuel + 1, rest, _, _, _, t => by
    rw [writePrettyItems, readMoreItems, skipSpace_newline, skipSpace_cons (by decide)]
    rfl
  | j :: items, depth, fuel + 1, rest, hwhole, hdepth, hfuel, t => by
    have hitems := length_lt_writePrettyItems depth items rest
    have hitem := length_lt_writePretty (depth + 1) j (writePrettyItems depth items rest)
    simp only [writePrettyItems, newline, List.cons_append, List.length_cons,
      List.length_append] at hfuel
    rw [nestingItems] at hdepth
    have hread := readValue_writePretty j (depth + 1) fuel (writePrettyItems depth items rest)
      hwhole.1 (by omega) (endsNumber_writePrettyItems depth items rest) (by omega)
    have hmore := readMoreItems_writePrettyItems items depth fuel rest hwhole.2 (by omega) (by omega)
      (Tree.ofJson j)
    rw [writePrettyItems, readMoreItems, skipSpace_cons (by decide)]
    simp [readValue_congr fuel (depth + 1) (skipSpace_newline ..), hread, hmore, Tree.ofItems]

theorem readMoreMembers_writePrettyFields : ∀ (fields : List (String × Json)) (depth fuel : Nat)
    (rest : List Char), WholeFields fields → depth + 1 + nestingFields fields ≤ Tree.depthLimit →
    (writePrettyFields depth fields rest).length ≤ rest.length + fuel → ∀ m,
      readMoreMembers fuel (depth + 1) m (writePrettyFields depth fields rest) =
        some (m :: Tree.ofFields fields, rest)
  | fields, depth, 0, rest, _, _, hfuel, _ => by
    have := length_lt_writePrettyFields depth fields rest
    omega
  | [], depth, fuel + 1, rest, _, _, _, m => by
    rw [writePrettyFields, readMoreMembers, skipSpace_newline, skipSpace_cons (by decide)]
    rfl
  | (key, j) :: fields, depth, fuel + 1, rest, hwhole, hdepth, hfuel, m => by
    have hfields := length_lt_writePrettyFields depth fields rest
    have hvalue := length_lt_writePretty (depth + 1) j (writePrettyFields depth fields rest)
    simp only [writePrettyFields, newline, writeString, List.cons_append, List.length_cons,
      List.length_append] at hfuel
    obtain ⟨fuel, rfl⟩ : ∃ n, fuel = n + 1 := ⟨fuel - 1, by omega⟩
    rw [nestingFields] at hdepth
    have hread := readValue_writePretty j (depth + 1) fuel (writePrettyFields depth fields rest)
      hwhole.1 (by omega) (endsNumber_writePrettyFields depth fields rest) (by omega)
    have hmember := readMember_writeString
      ((skipSpace_newline (depth + 1) _).trans (skipSpace_writeString key _)) hread
    have hmore := readMoreMembers_writePrettyFields fields depth (fuel + 1) rest hwhole.2 (by omega)
      (by omega) (some key, Tree.ofJson j)
    rw [writePrettyFields, readMoreMembers, skipSpace_cons (by decide)]
    simp [hmember, hmore, Tree.ofFields]
end

/-- The value has whole numbers alone and nests at most `n` deep. -/
structure Readable (n : Nat) (j : Json) : Prop where
  whole : j.Whole
  nesting : j.nesting ≤ n

/-- A written value reads back as its tree. -/
theorem Tree.read?_pretty {j : Json} (h : j.Readable Tree.depthLimit) :
    Tree.read? j.pretty.toList = some (Tree.ofJson j) := by
  have hdepth : 0 + j.nesting ≤ Tree.depthLimit := by
    rw [Nat.zero_add]
    exact h.nesting
  have hends : EndsNumber [] := by simp [EndsNumber]
  have hread := readValue_writePretty j 0 (3 * (writePretty 0 j []).length + 3) [] h.whole hdepth hends
    (by omega)
  rw [Tree.read?, pretty, String.toList_ofList, hread]
  rfl

/-! ## The value of a tree -/

theorem ofFields_eq (members : List (String × Json)) :
    Json.ofFields members = .object (Dict.ofList members).entries := by
  rw [Dict.ofList, Dict.entries_insertMany]
  rfl

theorem ofFields_of_ascending {fields : List (String × Json)} (h : Fields.Ascending fields) :
    Json.ofFields fields = .object fields := by
  rw [ofFields_eq, Dict.ofList_entries ⟨fields, h⟩]

mutual
/-- The tree of a value has one, and for whole numbers under ascending keys it is the value itself. -/
theorem Tree.value?_ofJson : ∀ j : Json, ∃ v, (Tree.ofJson j).value? = some v ∧
    (j.Ordered → j.Whole → v = j)
  | .null => ⟨_, rfl, fun _ _ => rfl⟩
  | .bool _ => ⟨_, rfl, fun _ _ => rfl⟩
  | .int _ => ⟨_, rfl, fun _ _ => rfl⟩
  | .double _ => ⟨_, rfl, fun _ hwhole => hwhole.elim⟩
  | .string _ => ⟨_, rfl, fun _ _ => rfl⟩
  | .array items => by
    obtain ⟨vs, hvs, heq⟩ := Tree.values?_ofItems items
    refine ⟨.array vs, by rw [ofJson, value?, hvs]; rfl, fun hord hwhole => ?_⟩
    rw [heq hord hwhole]
  | .object fields => by
    obtain ⟨vs, hvs, heq⟩ := Tree.fields?_ofFields fields
    refine ⟨Json.ofFields vs, by rw [ofJson, value?, hvs]; rfl, fun hord hwhole => ?_⟩
    rw [heq hord.2 hwhole, ofFields_of_ascending hord.1]

theorem Tree.values?_ofItems : ∀ items : List Json, ∃ vs,
    Tree.values? (Tree.ofItems items) = some vs ∧
      (OrderedItems items → WholeItems items → vs = items)
  | [] => ⟨[], rfl, fun _ _ => rfl⟩
  | j :: items => by
    obtain ⟨v, hv, heq⟩ := Tree.value?_ofJson j
    obtain ⟨vs, hvs, heqs⟩ := Tree.values?_ofItems items
    refine ⟨v :: vs, by rw [ofItems, values?, hv, hvs]; rfl, fun hord hwhole => ?_⟩
    rw [heq hord.1 hwhole.1, heqs hord.2 hwhole.2]

theorem Tree.fields?_ofFields : ∀ fields : List (String × Json), ∃ vs,
    Tree.fields? (Tree.ofFields fields) = some vs ∧
      (OrderedFields fields → WholeFields fields → vs = fields)
  | [] => ⟨[], rfl, fun _ _ => rfl⟩
  | (key, j) :: fields => by
    obtain ⟨v, hv, heq⟩ := Tree.value?_ofJson j
    obtain ⟨vs, hvs, heqs⟩ := Tree.fields?_ofFields fields
    refine ⟨(key, v) :: vs, by rw [ofFields, fields?, hv, hvs]; rfl, fun hord hwhole => ?_⟩
    rw [heq hord.1 hwhole.1, heqs hord.2 hwhole.2]
end

/-- A written value reads back as itself. -/
theorem read?_pretty {j : Json} (hord : j.Ordered) (h : j.Readable Tree.depthLimit) :
    read? j.pretty = some j := by
  obtain ⟨v, hv, heq⟩ := Tree.value?_ofJson j
  rw [read?, Tree.read?_pretty h, Option.bind_some, hv, heq hord h.whole]

/-! ## What is readable -/

namespace Readable

variable {α : Type} {n : Nat}

theorem mono {j : Json} {m : Nat} (h : j.Readable n) (hnm : n ≤ m) : j.Readable m :=
  ⟨h.whole, Nat.le_trans h.nesting hnm⟩

theorem null : Json.null.Readable n := ⟨trivial, Nat.zero_le n⟩

theorem bool (b : Bool) : (Json.bool b).Readable n := ⟨trivial, Nat.zero_le n⟩

theorem string (s : String) : (Json.string s).Readable n := ⟨trivial, Nat.zero_le n⟩

theorem nat {k width : Nat} (h : k < 2 ^ width) (hwidth : width ≤ 64) : (Json.nat k).Readable n := by
  have hpow : 2 ^ width ≤ 2 ^ 64 := Nat.pow_le_pow_right (by decide) hwidth
  refine ⟨⟨?_, ?_⟩, Nat.zero_le n⟩ <;> omega

theorem ofOption {f : α → Json} {o : Option α} (h : ∀ a ∈ o, (f a).Readable n) :
    (Json.ofOption f o).Readable n := by
  cases o with
  | none => exact null
  | some a => exact h a rfl

theorem array {items : List Json} (h : ∀ j ∈ items, j.Readable n) :
    (Json.array items).Readable (n + 1) := by
  have hitems : WholeItems items ∧ nestingItems items ≤ n := by
    induction items with
    | nil => exact ⟨trivial, Nat.zero_le n⟩
    | cons j items ih =>
      obtain ⟨hj, hitems⟩ := List.forall_mem_cons.1 h
      obtain ⟨hwhole, hnesting⟩ := ih hitems
      exact ⟨⟨hj.whole, hwhole⟩, Nat.max_le.2 ⟨hj.nesting, hnesting⟩⟩
  exact ⟨hitems.1, Nat.succ_le_succ hitems.2⟩

theorem object {fields : List (String × Json)} (h : ∀ m ∈ fields, m.2.Readable n) :
    (Json.object fields).Readable (n + 1) := by
  have hfields : WholeFields fields ∧ nestingFields fields ≤ n := by
    induction fields with
    | nil => exact ⟨trivial, Nat.zero_le n⟩
    | cons m fields ih =>
      obtain ⟨hm, hfields⟩ := List.forall_mem_cons.1 h
      obtain ⟨hwhole, hnesting⟩ := ih hfields
      exact ⟨⟨hm.whole, hwhole⟩, Nat.max_le.2 ⟨hm.nesting, hnesting⟩⟩
  exact ⟨hfields.1, Nat.succ_le_succ hfields.2⟩

theorem ofFields {members : List (String × Json)} (h : ∀ m ∈ members, m.2.Readable n) :
    (Json.ofFields members).Readable (n + 1) := by
  rw [ofFields_eq]
  exact object fun m hm => h m (Dict.mem_of_mem_ofList hm)

end Readable

end Egress.Json
