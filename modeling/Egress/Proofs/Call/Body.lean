import Egress.Cache.Key
import Egress.Proofs.Dict
import Egress.Proofs.Json.Writing

/-!
# Bodies of the same text

`KeyStrategy.bodyText` gives a text and the JSON value that is written so the same text. What they become
over the body of an endpoint (`Body.laidOver`) are the same bytes unless they are `Mistaken` for each other
(`encode_laidOver_iff`): a JSON string goes out without its quotes, and a JSON object takes the members of the
endpoint's that it does not have (`get?_joinFields`).
-/

set_option autoImplicit false

namespace Egress

theorem Text.Utf8.encode_inj {s s' : String} : encode s = encode s' ↔ s = s' := by
  refine ⟨fun h => ?_, fun h => h ▸ rfl⟩
  have hbytes : s.toList.utf8Encode = s'.toList.utf8Encode := congrArg List.toByteArray h
  have hchars := congrArg ByteArray.utf8Decode? hbytes
  simp only [List.utf8Decode?_utf8Encode, Option.some.injEq] at hchars
  exact String.toList_inj.1 (congrArg Array.toList hchars)

/-! ## Members -/

namespace Body

theorem joinFields_cons (base : List (String × Json)) (m : String × Json)
    (above : List (String × Json)) :
    joinFields base (m :: above) = joinFields (Fields.insert m.1 m.2 base) above := rfl

theorem ascending_joinFields {base : List (String × Json)} (h : Fields.Ascending base)
    (above : List (String × Json)) : Fields.Ascending (joinFields base above) := by
  induction above generalizing base with
  | nil => exact h
  | cons m above ih =>
    rw [joinFields_cons]
    exact ih h.insert

/-- A member of the joined object is the one above, else the one below. -/
theorem get?_joinFields (base : List (String × Json)) {above : List (String × Json)}
    (h : Fields.Ascending above) (k : String) :
    Fields.get? k (joinFields base above) = (Fields.get? k above).or (Fields.get? k base) := by
  induction above generalizing base with
  | nil => rfl
  | cons m above ih =>
    obtain ⟨key, v⟩ := m
    obtain ⟨hhead, htail⟩ := List.pairwise_cons.1 h
    rw [joinFields_cons, ih _ htail, Fields.get?_insert]
    by_cases hk : key = k
    · subst hk
      have hnone : Fields.get? key above = none := Fields.get?_eq_none_of_lt hhead
      simp [hnone, Fields.get?]
    · simp [Fields.get?, hk]

/-- The joined object adds nothing to the one above exactly if that has every name below. -/
theorem joinFields_eq_self {base above : List (String × Json)} (hb : Fields.Ascending base)
    (ha : Fields.Ascending above) (h : ∀ m ∈ base, Fields.get? m.1 above ≠ none) :
    joinFields base above = above := by
  refine Fields.ext_get? (ascending_joinFields hb above) ha fun k => ?_
  rw [get?_joinFields base ha]
  cases hk : Fields.get? k above with
  | some v => rfl
  | none =>
    rw [Option.none_or]
    apply Classical.byContradiction
    intro hbase
    obtain ⟨m, hm, rfl⟩ := List.mem_map.1 (Fields.get?_ne_none_iff.1 hbase)
    exact h m hm hk

/-! ## Over the body of an endpoint -/

/-- The body of a call that gives one, over that of its endpoint. -/
def laidOver : Option Body → Body → Body
  | some (.json (.object base)), .json (.object above) => .json (.object (joinFields base above))
  | _, call => call

theorem merged_some (base : Option Body) (call : Body) :
    merged base (some call) = some (laidOver base call) := by
  unfold merged laidOver
  split
  · next heq => cases heq; rfl
  · next h =>
    split
    · next base above => exact (h base above rfl rfl).elim
    · rfl

theorem laidOver_of_not_object (base : Option Body) {call : Body}
    (h : ∀ fields, call ≠ .json (.object fields)) : laidOver base call = call := by
  unfold laidOver
  split
  · next above => exact absurd rfl (h above)
  · rfl

theorem encode_json {j : Json} (h : ∀ s, j ≠ .string s) :
    encode (.json j) = Text.Utf8.encode j.render := by
  unfold encode
  split
  · next heq => cases heq
  · next s heq => cases heq; exact absurd rfl (h s)
  · next heq => cases heq; rfl

end Body

namespace Json

theorem render_inj {j j' : Json} : j.render = j'.render ↔ j.write [] = j'.write [] := by
  simp [render, String.ofList_inj]

theorem eq_string_of_write {j : Json} {rest cs : List Char} (h : j.write rest = '"' :: cs) :
    ∃ s, j = .string s := by
  rcases j with _ | _ | _ | _ | s | ⟨_ | _⟩ | ⟨_ | ⟨⟨_, _⟩, _⟩⟩
  case string => exact ⟨s, rfl⟩
  case array.nil | array.cons | object.nil | object.cons => simp [write] at h
  all_goals exact absurd h (write_ne_of_plain rfl (by decide) _ _)

theorem eq_object_of_write {j : Json} {rest cs : List Char} (h : j.write rest = '\x7b' :: cs) :
    ∃ fields, j = .object fields := by
  rcases j with _ | _ | _ | _ | _ | ⟨_ | _⟩ | fields
  case object => exact ⟨fields, rfl⟩
  case string | array.nil | array.cons => simp [write, writeString] at h
  all_goals exact absurd h (write_ne_of_plain rfl (by decide) _ _)

theorem exists_write_object (fields : List (String × Json)) (rest : List Char) :
    ∃ cs, (object fields).write rest = '\x7b' :: cs := by
  rcases fields with _ | ⟨⟨_, _⟩, _⟩ <;> exact ⟨_, rfl⟩

theorem sameFields_of_render_eq {fields fields' : List (String × Json)}
    (h : (object fields).render = (object fields').render) : SameFields fields fields' :=
  sameFields_of_write_eq (render_inj.1 h)

theorem SameFields.names {fields fields' : List (String × Json)} (h : SameFields fields fields') :
    fields.map (·.1) = fields'.map (·.1) := by
  induction h with
  | nil => rfl
  | cons hm _ ih => rw [List.map_cons, List.map_cons, hm.1, ih]

/-- A written string is longer than the string. -/
theorem render_string_ne (s : String) : (string s).render ≠ s := by
  intro h
  have hlen : ∀ cs : List Char, cs.length ≤ (cs.flatMap escapeChar).length := by
    intro cs
    induction cs with
    | nil => exact Nat.le_refl _
    | cons c cs ih =>
      have hc : 1 ≤ (escapeChar c).length := by
        unfold escapeChar
        repeat' split
        all_goals simp
      simp only [List.flatMap_cons, List.length_append, List.length_cons]
      omega
  have htext : '"' :: s.toList.flatMap escapeChar ++ ['"'] = s.toList := by
    rw [← String.toList_inj] at h
    simpa [render, write, writeString] using h
  have := congrArg List.length htext
  simp only [List.cons_append, List.length_cons, List.length_append, List.length_nil] at this
  have := hlen s.toList
  omega

end Json

namespace Body

/-- JSON of one text is sent as the same bytes. -/
theorem encode_json_congr {j j' : Json} (h : j.render = j'.render) :
    encode (.json j) = encode (.json j') := by
  by_cases hs : ∃ s, j = .string s
  · obtain ⟨s, rfl⟩ := hs
    have hw : j'.write [] = Json.writeString s [] := (Json.render_inj.1 h).symm
    obtain ⟨s', rfl⟩ := Json.eq_string_of_write hw
    obtain ⟨rfl, -⟩ := Json.writeString_inj hw
    rfl
  · by_cases hs' : ∃ s, j' = .string s
    · obtain ⟨s, rfl⟩ := hs'
      have hw : j.write [] = Json.writeString s [] := Json.render_inj.1 h
      exact (hs (Json.eq_string_of_write hw)).elim
    · rw [encode_json (not_exists.1 hs), encode_json (not_exists.1 hs'), h]

/-- Both are objects, or neither is. -/
theorem encode_laidOver_json_congr (base : Option Body) {j j' : Json} (h : j.render = j'.render) :
    encode (laidOver base (.json j)) = encode (laidOver base (.json j')) := by
  by_cases hj : ∃ fields, j = .object fields
  · obtain ⟨fields, rfl⟩ := hj
    obtain ⟨cs, hcs⟩ := Json.exists_write_object fields []
    obtain ⟨fields', rfl⟩ := Json.eq_object_of_write ((Json.render_inj.1 h).symm.trans hcs)
    have hsame : Json.SameFields fields fields' := Json.sameFields_of_render_eq h
    rcases base with _ | s | b
    · exact encode_json_congr h
    · exact encode_json_congr h
    · cases b
      case object below =>
        refine encode_json_congr (Json.render_inj.2 ?_)
        exact Json.write_object_congr (hsame.joinFields (Json.SameFields.refl below)) []
      all_goals exact encode_json_congr h
  · have hj' : ¬∃ fields, j' = .object fields := by
      rintro ⟨fields, rfl⟩
      obtain ⟨cs, hcs⟩ := Json.exists_write_object fields []
      exact hj (Json.eq_object_of_write ((Json.render_inj.1 h).trans hcs))
    rw [laidOver_of_not_object base fun fields hf => hj ⟨fields, by cases hf; rfl⟩,
      laidOver_of_not_object base fun fields hf => hj' ⟨fields, by cases hf; rfl⟩]
    exact encode_json_congr h

/-- The JSON value, over the body of the endpoint, is sent as other bytes than its text: as a string it
loses its quotes, as an object it gains members. -/
def Altered (base : Option Body) : Json → Prop
  | .string _ => True
  | .object above =>
    ∃ below, base = some (.json (.object below)) ∧ ∃ m ∈ below, Fields.get? m.1 above = none
  | _ => False

theorem encode_laidOver_json_iff {base : Option Body} {j : Json}
    (hbase : ∀ below, base = some (.json (.object below)) → Fields.Ascending below)
    (hj : ∀ above, j = .object above → Fields.Ascending above) :
    encode (laidOver base (.json j)) = encode (.text j.render) ↔ ¬Altered base j := by
  cases j
  case string s =>
    rw [laidOver_of_not_object base (by simp), encode_string]
    refine iff_of_false (fun h => ?_) (not_not.2 trivial)
    exact Json.render_string_ne s (Text.Utf8.encode_inj.1 h).symm
  case object above =>
    by_cases hb : ∃ below, base = some (.json (.object below))
    · obtain ⟨below, rfl⟩ := hb
      have hlaid : laidOver (some (.json (.object below))) (.json (.object above)) =
          .json (.object (joinFields below above)) := rfl
      rw [hlaid, encode_json (by simp), encode, Text.Utf8.encode_inj]
      have habove := hj above rfl
      have hbelow := hbase below rfl
      constructor
      · rintro h ⟨below', heq, m, hm, hnone⟩
        cases heq
        have hmem : Fields.get? m.1 (joinFields below above) ≠ none := by
          rw [get?_joinFields below habove, hnone, Option.none_or]
          exact Fields.get?_ne_none_iff.2 (List.mem_map_of_mem hm)
        rw [Fields.get?_ne_none_iff, (Json.sameFields_of_render_eq h).names,
          ← Fields.get?_ne_none_iff] at hmem
        exact hmem hnone
      · intro h
        rw [joinFields_eq_self hbelow habove]
        exact fun m hm hnone => h ⟨below, rfl, m, hm, hnone⟩
    · have hlaid : laidOver base (.json (.object above)) = .json (.object above) := by
        unfold laidOver
        split
        · next heq => exact absurd ⟨_, rfl⟩ hb
        · rfl
      rw [hlaid, encode_json (by simp)]
      exact iff_of_true rfl fun ⟨below, hbelow, _⟩ => hb ⟨below, hbelow⟩
  all_goals
    rw [laidOver_of_not_object base (by simp), encode_json (by simp)]
    exact iff_of_true rfl id

/-- One body is a text and the other the JSON value it is the text of, which is sent altered. -/
def Mistaken (base : Option Body) : Body → Body → Prop
  | .text _, .json j | .json j, .text _ => Altered base j
  | _, _ => False

/-- The members of a JSON object are ascending. -/
def Ascending : Body → Prop
  | .json (.object fields) => Fields.Ascending fields
  | _ => True

/-- Bodies of one text are sent as the same bytes exactly if they are not mistaken for each other. -/
theorem encode_laidOver_iff {base : Option Body} (hbase : ∀ b ∈ base, b.Ascending) {b b' : Body}
    (hb : b.Ascending) (hb' : b'.Ascending)
    (h : KeyStrategy.bodyText b = KeyStrategy.bodyText b') :
    encode (laidOver base b) = encode (laidOver base b') ↔ ¬Mistaken base b b' := by
  have hbelow : ∀ below, base = some (.json (.object below)) → Fields.Ascending below :=
    fun below heq => hbase (.json (.object below)) heq
  cases b with
  | text s =>
    cases b' with
    | text s' =>
      obtain rfl : s = s' := h
      exact iff_of_true rfl id
    | json j =>
      obtain rfl : s = j.render := h
      rw [laidOver_of_not_object base (by simp), eq_comm]
      exact encode_laidOver_json_iff hbelow fun above heq => by subst heq; exact hb'
  | json j =>
    cases b' with
    | text s =>
      obtain rfl : j.render = s := h
      have hlaid : laidOver base (.text j.render) = .text j.render := laidOver_of_not_object base (by simp)
      rw [hlaid]
      exact encode_laidOver_json_iff hbelow fun above heq => by subst heq; exact hb
    | json j' => exact iff_of_true (encode_laidOver_json_congr base h) id

end Body

end Egress
