import Egress.Proofs.Call.Headers
import Mathlib.Data.List.Induction

/-!
# Which headers are received

A response lists its headers with repetitions, and a name may be spelled differently each time. What is collected
of them has each name once, in lower case, with all its values (`valuesOf`).

* `get?_addHeader`, `get?_collectHeaders`: what one header more changes, and what is collected in the end.
* `header?_eq_some_iff`: a header that is looked up among all of them is the first one with its name.
* `Interleaved.valuesOf_eq`: headers of other names among them are no part of what a name has.
* `collected_headers`: from this the collected headers of a response (`CollectedHeaders`).
-/

set_option autoImplicit false

namespace Egress

namespace Response

/-! ## The values of one name -/

/-- The values of the headers with a name, in whatever spelling, in the order received. -/
def valuesOf (name : String) (headers : List (String × String)) : List String :=
  (headers.filter fun h => Text.lower h.1 = Text.lower name).map (·.2)

/-- The values of one name in one text, if there are any. -/
def joined? : List String → Option String
  | [] => none
  | value :: values => some (", ".intercalate (value :: values))

theorem joined?_eq_none_iff {values : List String} : joined? values = none ↔ values = [] := by
  cases values <;> simp [joined?]

theorem joined?_of_ne_nil {values : List String} (h : values ≠ []) :
    joined? values = some (", ".intercalate values) := by
  cases values with
  | nil => exact absurd rfl h
  | cons value values => rfl

theorem joined?_concat (values : List String) (value : String) :
    joined? (values ++ [value]) = some ((joined? values).elim value (· ++ ", " ++ value)) := by
  cases values with
  | nil => exact congrArg some String.intercalate_singleton
  | cons first values =>
    rw [joined?_of_ne_nil (by simp), String.intercalate_append_of_ne_nil (by simp) (by simp),
      String.intercalate_singleton]
    rfl

/-! ## Collecting -/

/-- One header more is added to what its name has, and no other name has anything of it. -/
theorem get?_addHeader (collected : Dict String) (h : String × String) (key : String) :
    (addHeader collected h).get? key =
      if Text.lower h.1 = key then some ((collected.get? key).elim h.2 (· ++ ", " ++ h.2))
      else collected.get? key := by
  rw [addHeader, Dict.get?_insert]
  by_cases hkey : Text.lower h.1 = key
  · rw [if_pos hkey, if_pos hkey, hkey]
  · rw [if_neg hkey, if_neg hkey]

theorem getAll_lowered (name : String) (headers : List (String × String)) :
    Fields.getAll (Text.lower name) (lowered headers) = valuesOf name headers := by
  simp [Fields.getAll, lowered, valuesOf, List.filter_map, Function.comp_def]

theorem get?_collectHeaders (headers : List (String × String)) (key : String) :
    (collectHeaders headers).get? key = joined? (Fields.getAll key (lowered headers)) := by
  -- from the last header on, since a value is added behind those that are collected
  induction headers using List.reverseRecOn with
  | nil => rfl
  | append_singleton headers h ih =>
    have hfold : collectHeaders (headers ++ [h]) = addHeader (collectHeaders headers) h :=
      List.foldl_concat ..
    have hvalues : Fields.getAll key (lowered (headers ++ [h])) =
        Fields.getAll key (lowered headers) ++ if Text.lower h.1 = key then [h.2] else [] := by
      by_cases hkey : Text.lower h.1 = key <;> simp [Fields.getAll, lowered, hkey]
    rw [hfold, get?_addHeader, ih, hvalues]
    by_cases hkey : Text.lower h.1 = key
    · rw [if_pos hkey, if_pos hkey, joined?_concat]
    · rw [if_neg hkey, if_neg hkey, List.append_nil]

/-- A value is collected under each name that is there, and under no other. -/
theorem mem_keys_collectHeaders {headers : List (String × String)} {key : String} :
    key ∈ (collectHeaders headers).keys ↔ ∃ h ∈ headers, Text.lower h.1 = key := by
  have hempty : Fields.getAll key (lowered headers) = [] ↔ ∀ h ∈ headers, Text.lower h.1 ≠ key := by
    rw [Fields.getAll, List.map_eq_nil_iff, List.filter_eq_nil_iff, lowered, List.forall_mem_map]
    simp only [decide_eq_true_eq, ne_eq]
  rw [Dict.mem_keys_iff, get?_collectHeaders, Ne, joined?_eq_none_iff, hempty]
  simp only [not_forall, not_not, exists_prop, ne_eq]

theorem get?_collectHeaders_lower {headers : List (String × String)} {name : String}
    (h : valuesOf name headers ≠ []) :
    (collectHeaders headers).get? (Text.lower name) = some (", ".intercalate (valuesOf name headers)) := by
  rw [get?_collectHeaders, getAll_lowered, joined?_of_ne_nil h]

/-! ## Looking up -/

theorem header?_eq_head? (r : Response) (name : String) :
    r.header? name = (valuesOf name r.headers).head? := by
  rw [header?, valuesOf, List.head?_map, List.head?_filter]
  rfl

/-- The value of the first header with the name is the first of the values. -/
theorem valuesOf_append {name : String} {front : List (String × String)}
    (hfront : ∀ g ∈ front, Text.lower g.1 ≠ Text.lower name) {h : String × String}
    (hname : Text.lower h.1 = Text.lower name) (back : List (String × String)) :
    valuesOf name (front ++ h :: back) = h.2 :: valuesOf name back := by
  have hnone : front.filter (fun g => Text.lower g.1 = Text.lower name) = [] :=
    List.filter_eq_nil_iff.2 fun g hg => by simpa using hfront g hg
  rw [valuesOf, List.filter_append, hnone, List.nil_append, List.filter_cons_of_pos (by simpa using hname),
    List.map_cons, valuesOf]

theorem header?_eq_some_iff {r : Response} {name value : String} :
    r.header? name = some value ↔ ∃ front h back, r.headers = front ++ h :: back ∧
      (∀ g ∈ front, Text.lower g.1 ≠ Text.lower name) ∧ Text.lower h.1 = Text.lower name ∧ h.2 = value := by
  constructor
  · intro hfound
    obtain ⟨h, hfind, hvalue⟩ := Option.map_eq_some_iff.1 hfound
    obtain ⟨hname, front, back, hheaders, hfront⟩ := List.find?_eq_some_iff_append.1 hfind
    refine ⟨front, h, back, hheaders, fun g hg hsame => ?_, Text.sameIgnoringCase_iff.1 hname, hvalue⟩
    have hnot := hfront g hg
    rw [Text.sameIgnoringCase_iff.2 hsame] at hnot
    cases hnot
  · rintro ⟨front, h, back, hheaders, hfront, hname, rfl⟩
    rw [header?_eq_head?, hheaders, valuesOf_append hfront hname, List.head?_cons]

/-! ## Headers of other names -/

/-- The third list has the entries of the first two, each of them in their order. -/
inductive Interleaved {α : Type} : List α → List α → List α → Prop
  | nil : Interleaved [] [] []
  | first {a : α} {as bs cs : List α} (h : Interleaved as bs cs) : Interleaved (a :: as) bs (a :: cs)
  | second {b : α} {as bs cs : List α} (h : Interleaved as bs cs) : Interleaved as (b :: bs) (b :: cs)

theorem Interleaved.filter_eq {α : Type} {p : α → Bool} {as bs cs : List α} (h : Interleaved as bs cs)
    (hbs : ∀ b ∈ bs, ¬p b = true) : cs.filter p = as.filter p := by
  induction h with
  | nil => rfl
  | @first a as bs cs h ih => rw [List.filter_cons, List.filter_cons, ih hbs]
  | @second b as bs cs h ih =>
    rw [List.filter_cons_of_neg (hbs b List.mem_cons_self), ih fun b hb => hbs b (List.mem_cons_of_mem _ hb)]

theorem Interleaved.valuesOf_eq {name : String} {headers others mixed : List (String × String)}
    (h : Interleaved headers others mixed) (hothers : ∀ g ∈ others, Text.lower g.1 ≠ Text.lower name) :
    valuesOf name mixed = valuesOf name headers := by
  rw [valuesOf, h.filter_eq fun g hg => by simpa using hothers g hg, valuesOf]

/-! ## The headers of a response -/

/-- What is collected of the headers of a response: their names in lower case and no others, and under each of
them all its values in order, whatever headers of other names stand between them. The value that is looked up
for a name is that of the first header with it, which the collected one begins with; of the content type it
decides how the body is read. -/
structure CollectedHeaders (r : Response) (collected : Dict String) : Prop where
  names : ∀ key, key ∈ collected.keys ↔ ∃ h ∈ r.headers, Text.lower h.1 = key
  values : ∀ h ∈ r.headers,
    collected.get? (Text.lower h.1) = some (", ".intercalate (valuesOf h.1 r.headers))
  others : ∀ name others mixed, (∀ h ∈ others, Text.lower h.1 ≠ Text.lower name) →
    Interleaved r.headers others mixed →
    (collectHeaders mixed).get? (Text.lower name) = collected.get? (Text.lower name) ∧
      { r with headers := mixed }.header? name = r.header? name
  missing : ∀ name, r.header? name = none ↔ collected.get? (Text.lower name) = none
  first : ∀ name value, r.header? name = some value ↔ ∃ front h back, r.headers = front ++ h :: back ∧
    (∀ g ∈ front, Text.lower g.1 ≠ Text.lower name) ∧ Text.lower h.1 = Text.lower name ∧ h.2 = value ∧
    collected.get? (Text.lower name) = some (", ".intercalate (value :: valuesOf name back))
  kind : r.contentKind = .ofType ((valuesOf "content-type" r.headers).head?.getD "")

theorem collected_headers (r : Response) : CollectedHeaders r (collectHeaders r.headers) := by
  refine ⟨fun key => mem_keys_collectHeaders, fun h hmem => ?_, fun name others mixed hothers hmixed => ?_,
    fun name => ?_, fun name value => ?_, ?_⟩
  · refine get?_collectHeaders_lower (List.ne_nil_of_mem (a := h.2) ?_)
    exact List.mem_map_of_mem (List.mem_filter.2 ⟨hmem, decide_eq_true rfl⟩)
  · have hvalues := hmixed.valuesOf_eq hothers
    constructor
    · rw [get?_collectHeaders, get?_collectHeaders, getAll_lowered, getAll_lowered, hvalues]
    · rw [header?_eq_head?, header?_eq_head?, hvalues]
  · rw [header?_eq_head?, List.head?_eq_none_iff, get?_collectHeaders, getAll_lowered, joined?_eq_none_iff]
  · rw [header?_eq_some_iff]
    refine exists_congr fun front => exists_congr fun h => exists_congr fun back => ?_
    refine and_congr_right fun hheaders => and_congr_right fun hfront => and_congr_right fun hname => ?_
    refine (and_iff_left_of_imp fun hvalue => ?_).symm
    have hall := valuesOf_append hfront hname back
    rw [← hheaders, hvalue] at hall
    rw [get?_collectHeaders_lower (by rw [hall]; exact List.cons_ne_nil _ _), hall]
  · rw [contentKind, header?_eq_head?]

/-- The values of one name, with another header between them. -/
example : (collectHeaders [("Set-Cookie", "a=1"), ("Via", "x"), ("set-cookie", "b=2")]).get? "set-cookie" =
    some "a=1, b=2" := by decide

end Response

end Egress
