import Egress.Proofs.Metrics.Mirror

/-!
# Labels are names

A label has the form of a name, `[a-zA-Z_][a-zA-Z0-9_]*` (`Label.IsName`), whatever text it is made of.

* `Label.isName_sanitize`, `Label.sanitize_of_isName`: of any text but the empty one a name is made, and of a
  name the name itself.
* `Label.length_sanitize`: each character makes one, and a leading digit one more.
* `Metrics.faithful_useAll`: what is remembered of labels is what would be made again, whatever was asked and
  recorded before, so that a label which is looked up is the one that would be made.
-/

set_option autoImplicit false

namespace Egress

namespace Label

/-! ## Names -/

/-- A letter of ASCII or the underscore. -/
def IsStart (c : Char) : Prop := 'a' ≤ c ∧ c ≤ 'z' ∨ 'A' ≤ c ∧ c ≤ 'Z' ∨ c = '_'

/-- A digit of ASCII. -/
def IsDigit (c : Char) : Prop := '0' ≤ c ∧ c ≤ '9'

instance (c : Char) : Decidable (IsDigit c) := inferInstanceAs (Decidable (_ ∧ _))

/-- The form `[a-zA-Z_][a-zA-Z0-9_]*`. -/
def IsName (text : String) : Prop :=
  ∃ c cs, text.toList = c :: cs ∧ IsStart c ∧ ∀ d ∈ cs, IsStart d ∨ IsDigit d

/-- The text begins with a digit. -/
def DigitFirst (text : String) : Prop := ∃ c ∈ text.toList.head?, IsDigit c

instance (text : String) : Decidable (DigitFirst text) :=
  inferInstanceAs (Decidable (∃ c ∈ text.toList.head?, IsDigit c))

theorem isDigit_iff {c : Char} : c.isDigit = true ↔ IsDigit c := by
  simp [Char.isDigit, IsDigit, Char.le_def]

theorem isUpper_iff {c : Char} : c.isUpper = true ↔ 'A' ≤ c ∧ c ≤ 'Z' := decide_eq_true_iff

theorem isLower_iff {c : Char} : c.isLower = true ↔ 'a' ≤ c ∧ c ≤ 'z' := by
  rw [← decide_eq_true_iff (p := 'a' ≤ c), ← decide_eq_true_iff (p := c ≤ 'z'), ← Bool.and_eq_true]
  rfl

theorem isAlpha_iff {c : Char} : c.isAlpha = true ↔ c.isUpper = true ∨ c.isLower = true :=
  Bool.or_eq_true_iff

theorem isLabelChar_iff {c : Char} : isLabelChar c = true ↔ IsStart c ∨ IsDigit c := by
  simp only [isLabelChar, Char.isAlphanum, Bool.or_eq_true, isAlpha_iff, isUpper_iff, isLower_iff, isDigit_iff,
    decide_eq_true_eq, IsStart]
  tauto

theorem not_isDigit_of_isStart {c : Char} (h : IsStart c) : ¬IsDigit c := by
  rintro ⟨-, hnine⟩
  have hnine : c.toNat ≤ 57 := UInt32.le_iff_toNat_le.1 hnine
  rcases h with ⟨ha, -⟩ | ⟨hA, -⟩ | rfl
  · have ha : 97 ≤ c.toNat := UInt32.le_iff_toNat_le.1 ha
    omega
  · have hA : 65 ≤ c.toNat := UInt32.le_iff_toNat_le.1 hA
    omega
  · exact absurd hnine (by decide)

/-- A name has a first character, and it is no digit. -/
theorem IsName.not_digitFirst {text : String} (h : IsName text) : ¬DigitFirst text := by
  obtain ⟨c, cs, hcs, hc, -⟩ := h
  rintro ⟨d, hd, hdigit⟩
  rw [hcs, List.head?_cons, Option.mem_some] at hd
  exact not_isDigit_of_isStart hc (hd ▸ hdigit)

theorem IsName.isLabelChar {text : String} (h : IsName text) {c : Char} (hc : c ∈ text.toList) :
    isLabelChar c = true := by
  obtain ⟨d, cs, hcs, hd, hrest⟩ := h
  rw [hcs, List.mem_cons] at hc
  rw [isLabelChar_iff]
  rcases hc with rfl | hc
  · exact .inl hd
  · exact hrest c hc

/-! ## Made of any text -/

/-- An underscore in the place of a character that no name holds. -/
def replace (c : Char) : Char := if isLabelChar c then c else '_'

theorem isLabelChar_replace (c : Char) : isLabelChar (replace c) = true := by
  unfold replace
  split
  · assumption
  · rfl

/-- A digit stands where one stood. -/
theorem isDigit_replace {c : Char} : IsDigit (replace c) ↔ IsDigit c := by
  unfold replace
  split
  · exact Iff.rfl
  · next h =>
    exact ⟨fun hdigit => absurd hdigit (by decide), fun hc => absurd (isLabelChar_iff.2 (.inr hc)) h⟩

theorem toList_sanitize (text : String) :
    (sanitize text).toList =
      if DigitFirst text then '_' :: text.toList.map replace else text.toList.map replace := by
  have hfirst : (text.toList.map replace).head?.any Char.isDigit = true ↔ DigitFirst text := by
    rw [List.head?_map, Option.any_map, Option.any_eq_true]
    simp only [isDigit_iff, isDigit_replace, DigitFirst, Option.mem_def]
  rw [show sanitize text = String.ofList (if (text.toList.map replace).head?.any Char.isDigit = true
    then '_' :: text.toList.map replace else text.toList.map replace) from rfl, String.toList_ofList]
  exact ite_congr (propext hfirst) (fun _ => rfl) fun _ => rfl

/-- Each character makes one, and a digit at the start one more. -/
theorem length_sanitize (text : String) :
    (sanitize text).length = text.length + if DigitFirst text then 1 else 0 := by
  rw [← String.length_toList, ← String.length_toList, toList_sanitize]
  split <;> simp

/-- Of any text but the empty one, a name is made. -/
theorem isName_sanitize {text : String} (h : text ≠ "") : IsName (sanitize text) := by
  have hlabel : ∀ cs : List Char, ∀ d ∈ cs.map replace, IsStart d ∨ IsDigit d := by
    intro cs d hd
    obtain ⟨c, -, rfl⟩ := List.mem_map.1 hd
    exact isLabelChar_iff.1 (isLabelChar_replace c)
  by_cases hfirst : DigitFirst text
  · exact ⟨'_', _, by rw [toList_sanitize, if_pos hfirst], .inr (.inr rfl), hlabel _⟩
  · cases hcs : text.toList with
    | nil => exact absurd (String.toList_eq_nil_iff.1 hcs) h
    | cons c cs =>
      have hc : ¬IsDigit (replace c) := fun hc =>
        hfirst ⟨c, by rw [hcs, List.head?_cons, Option.mem_some], isDigit_replace.1 hc⟩
      refine ⟨replace c, cs.map replace, ?_, (isLabelChar_iff.1 (isLabelChar_replace c)).resolve_right hc,
        hlabel _⟩
      rw [toList_sanitize, if_neg hfirst, hcs, List.map_cons]

/-- A name is left as it is. -/
theorem sanitize_of_isName {text : String} (h : IsName text) : sanitize text = text := by
  rw [← String.toList_inj, toList_sanitize, if_neg h.not_digitFirst]
  exact (List.map_congr_left fun c hc => if_pos (h.isLabelChar hc)).trans (List.map_id _)

theorem sanitize_sanitize (text : String) : sanitize (sanitize text) = sanitize text := by
  by_cases h : text = ""
  · subst h
    rfl
  · exact sanitize_of_isName (isName_sanitize h)

end Label

namespace Metrics

/-! ## Remembered -/

/-- What labels are made for: one that is asked for, or one that is needed to count. -/
inductive Use
  | label (text : String)
  | perform (action : Action)

def use (m : Metrics) : Use → Metrics
  | .label text => (m.label text).2
  | .perform action => m.perform action

/-- The statistics after these uses. -/
def useAll (m : Metrics) (uses : List Use) : Metrics := uses.foldl use m

theorem Faithful.use {m : Metrics} (h : m.Faithful) : ∀ u : Use, (m.use u).Faithful
  | .label text => h.label text
  | .perform action => h.perform action

theorem Faithful.useAll {m : Metrics} (h : m.Faithful) (uses : List Use) : (m.useAll uses).Faithful := by
  induction uses generalizing m with
  | nil => exact h
  | cons u uses ih => exact ih (h.use u)

/-- What is remembered after any uses is what would be made again. -/
theorem faithful_useAll (uses : List Use) : (empty.useAll uses).Faithful :=
  (faithful_run []).useAll uses

/-- Whatever labels were asked for and whatever was counted before, the label of a text is the one that is made
when none is remembered. Of any text but the empty one it is a name, it is its own label, now or later, and a
name is the label of itself. It has a character for each one of the text, and one more if the text begins with
a digit. -/
theorem label_of_uses (uses : List Use) (text : String) :
    let label := ((empty.useAll uses).label text).1
    label = (empty.label text).1 ∧
      (text ≠ "" → Label.IsName label) ∧
      (∀ more : List Use, ((empty.useAll more).label label).1 = label) ∧
      (Label.IsName text → label = text) ∧
      label.length = text.length + if Label.DigitFirst text then 1 else 0 := by
  intro label
  have hlabel : label = Label.sanitize text := label_fst (faithful_useAll uses) text
  have hfresh : (empty.label text).1 = Label.sanitize text := label_fst (faithful_useAll []) text
  refine ⟨hlabel.trans hfresh.symm, fun h => ?_, fun more => ?_, fun h => ?_, ?_⟩
  · rw [hlabel]
    exact Label.isName_sanitize h
  · rw [label_fst (faithful_useAll more), hlabel, Label.sanitize_sanitize]
  · rw [hlabel, Label.sanitize_of_isName h]
  · rw [hlabel, Label.length_sanitize]

/-- The label of `2α` is looked up the second time. -/
theorem label_of_uses_digitFirst :
    let uses := [Use.label "2α", .perform (.report (.limitHit "2-β")), .perform .clear]
    (empty.useAll uses).labels.known.get? "2α" = some "_2_" ∧ Label.IsName "_2_" ∧
      ((empty.useAll uses).label "2α").1 = "_2_" ∧ ((empty.useAll uses).label "_2_").1 = "_2_" ∧
      ("_2_" : String).length = ("2α" : String).length + 1 := by
  intro uses
  have hmade : (empty.label "2α").1 = "_2_" := by decide +kernel
  obtain ⟨hfresh, hname, hown, -, hlength⟩ := label_of_uses uses "2α"
  rw [hmade] at hfresh
  have hdigit : Label.DigitFirst "2α" := ⟨'2', rfl, by decide⟩
  rw [hfresh] at hname hown hlength
  rw [if_pos hdigit] at hlength
  exact ⟨by decide +kernel, hname (by decide), hfresh, hown uses, hlength⟩

end Metrics

end Egress
