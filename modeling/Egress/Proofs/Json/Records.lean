import Egress.Json.Decode
import Egress.Proofs.Json.Reading

/-!
# The order of the members makes no difference

`readRecord` goes through the members of an object as they come and picks the field that each one names.
Where the fields are `Apart` this comes to the same as going through the fields and looking up the member
of each (`Filled`):

* `Filled.front`: a field that is read can as well be read first.
* `readMembersInto_of_filled`: hence reading the members in any order fills the record.
* `readRecord_ofFields`: an object made of members with different keys is read so; `Filled.member` and
  `Filled.memberOrDefault` go from field to field.
-/

set_option autoImplicit false

namespace Egress.Json

variable {ρ α β : Type}

/-! ## Fields that do not get in each other's way -/

namespace RecordField

/-- The fields have different names, and it makes no difference which one is read first. -/
structure Apart (f g : RecordField ρ) : Prop where
  name_ne : f.name ≠ g.name
  swap : ∀ d t u r r₁ r₂, f.read d t r = .ok r₁ → g.read d u r₁ = .ok r₂ →
    ∃ r', g.read d u r = .ok r' ∧ f.read d t r' = .ok r₂

@[simp] theorem name_needed (name : String) (decode : Decoder α) (set : α → ρ → ρ) :
    (needed name decode set).name = name := rfl

@[simp] theorem name_optional (name : String) (decode : Decoder α) (set : α → ρ → ρ) :
    (optional name decode set).name = name := rfl

theorem set_eq_ok {decoded : Except DecodeError α} {set : α → ρ → ρ} {r r' : ρ} :
    (do return set (← decoded) r) = Except.ok r' ↔ ∃ v, decoded = .ok v ∧ set v r = r' := by
  constructor
  · intro h
    cases decoded with
    | error e => cases h
    | ok v => cases h; exact ⟨v, rfl, rfl⟩
  · rintro ⟨v, rfl, rfl⟩
    rfl

/-- Fields that set different parts of the record. -/
theorem apart_of_set {f g : RecordField ρ} {decodeF : Decoder α} {decodeG : Decoder β}
    {setF : α → ρ → ρ} {setG : β → ρ → ρ} (hname : f.name ≠ g.name)
    (hf : f.read = fun d t r => do return setF (← decodeF d t) r)
    (hg : g.read = fun d t r => do return setG (← decodeG d t) r)
    (h : ∀ v w r, setG w (setF v r) = setF v (setG w r)) : f.Apart g := by
  refine ⟨hname, fun d t u r r₁ r₂ hfr hgr => ?_⟩
  rw [hf, set_eq_ok] at hfr
  rw [hg, set_eq_ok] at hgr
  obtain ⟨v, hv, rfl⟩ := hfr
  obtain ⟨w, hw, rfl⟩ := hgr
  refine ⟨setG w r, ?_, ?_⟩
  · rw [hg, set_eq_ok]
    exact ⟨w, hw, rfl⟩
  · rw [hf, set_eq_ok]
    exact ⟨v, hv, (h v w r).symm⟩

section

variable {name name' : String} {decodeF : Decoder α} {decodeG : Decoder β} {setF : α → ρ → ρ}
  {setG : β → ρ → ρ} (hname : name ≠ name') (h : ∀ v w r, setG w (setF v r) = setF v (setG w r))

include hname h

@[simp] theorem apart_needed_needed :
    (needed name decodeF setF).Apart (needed name' decodeG setG) := apart_of_set hname rfl rfl h

@[simp] theorem apart_needed_optional :
    (needed name decodeF setF).Apart (optional name' decodeG setG) := apart_of_set hname rfl rfl h

@[simp] theorem apart_optional_needed :
    (optional name decodeF setF).Apart (needed name' decodeG setG) := apart_of_set hname rfl rfl h

@[simp] theorem apart_optional_optional :
    (optional name decodeF setF).Apart (optional name' decodeG setG) := apart_of_set hname rfl rfl h

end

@[simp] theorem apart_orNamed_left {f g : RecordField ρ} {aliases : List String} :
    (f.orNamed aliases).Apart g ↔ f.Apart g := ⟨fun h => ⟨h.1, h.2⟩, fun h => ⟨h.1, h.2⟩⟩

@[simp] theorem apart_orNamed_right {f g : RecordField ρ} {aliases : List String} :
    f.Apart (g.orNamed aliases) ↔ f.Apart g := ⟨fun h => ⟨h.1, h.2⟩, fun h => ⟨h.1, h.2⟩⟩

theorem answersTo_name (f : RecordField ρ) : f.answersTo f.name = true := by simp [answersTo]

end RecordField

/-! ## Field by field -/

/-- Reading field after field turns one record into the other: the member under the name of a field is
read into it, and a field without one is in `seen` or may be missing. -/
inductive Filled (d : Dialect) (members : List (String × Json)) (seen : List String) :
    List (RecordField ρ) → ρ → ρ → Prop
  | nil (r : ρ) : Filled d members seen [] r r
  | present {f : RecordField ρ} {fields : List (RecordField ρ)} {j : Json} {r r' r'' : ρ}
      (hget : Fields.get? f.name members = some j) (hread : f.read d (Tree.ofJson j) r = .ok r')
      (htail : Filled d members seen fields r' r'') : Filled d members seen (f :: fields) r r''
  | absent {f : RecordField ρ} {fields : List (RecordField ρ)} {r r' : ρ}
      (hget : Fields.get? f.name members = none) (hseen : f.required = true → f.name ∈ seen)
      (htail : Filled d members seen fields r r') : Filled d members seen (f :: fields) r r'

namespace Filled

variable {d : Dialect} {members rest : List (String × Json)} {seen : List String}
  {fields : List (RecordField ρ)} {r r₂ : ρ} {key : String} {j : Json}

theorem congr {members' : List (String × Json)}
    (hget : ∀ k, Fields.get? k members = Fields.get? k members')
    (h : Filled d members seen fields r r₂) : Filled d members' seen fields r r₂ := by
  induction h with
  | nil r => exact .nil r
  | present hj hread _ ih => exact .present ((hget _).symm.trans hj) hread ih
  | absent hnone hseen _ ih => exact .absent ((hget _).symm.trans hnone) hseen ih

/-- Without members nothing is read. -/
theorem eq_of_nil (h : Filled d [] seen fields r r₂) :
    r₂ = r ∧ ∀ f ∈ fields, f.required = true → f.name ∈ seen := by
  generalize hm : ([] : List (String × Json)) = members at h
  induction h with
  | nil r => exact ⟨rfl, by simp⟩
  | present hget => subst hm; simp [Fields.get?] at hget
  | absent _ hseen _ ih =>
    obtain ⟨rfl, hfields⟩ := ih
    exact ⟨rfl, List.forall_mem_cons.2 ⟨hseen, hfields⟩⟩

/-- A member that names none of the fields is not looked at. -/
theorem drop {seen' : List String} (hseen' : seen ⊆ seen') (hne : ∀ f ∈ fields, key ≠ f.name)
    (h : Filled d ((key, j) :: rest) seen fields r r₂) : Filled d rest seen' fields r r₂ := by
  generalize hm : (key, j) :: rest = members at h
  induction h with
  | nil r => exact .nil r
  | present hget hread _ ih =>
    subst hm
    obtain ⟨hf, hfields⟩ := List.forall_mem_cons.1 hne
    exact .present (by simpa [Fields.get?, hf] using hget) hread (ih hfields)
  | absent hget hseen _ ih =>
    subst hm
    obtain ⟨hf, hfields⟩ := List.forall_mem_cons.1 hne
    exact .absent (by simpa [Fields.get?, hf] using hget) (fun hr => hseen' (hseen hr)) (ih hfields)

/-- The field that the first member names can be read before all others. -/
theorem front {f : RecordField ρ} (hapart : fields.Pairwise RecordField.Apart) (hf : f ∈ fields)
    (hname : f.name = key) (hrest : Fields.get? key rest = none)
    (h : Filled d ((key, j) :: rest) seen fields r r₂) :
    ∃ r₁, f.read d (Tree.ofJson j) r = .ok r₁ ∧ Filled d rest (key :: seen) fields r₁ r₂ := by
  generalize hm : (key, j) :: rest = members at h
  induction h with
  | nil r => cases hf
  | @present g fields j' r r' r'' hget hread htail ih =>
    subst hm
    obtain ⟨hg, hfields⟩ := List.pairwise_cons.1 hapart
    rcases List.mem_cons.1 hf with rfl | hf
    · obtain rfl : j = j' := by simpa [Fields.get?, hname] using hget
      have hne : ∀ g ∈ fields, key ≠ g.name := fun g hmem => hname ▸ (hg g hmem).name_ne
      exact ⟨r', hread, .absent (hname ▸ hrest) (fun _ => hname ▸ List.mem_cons_self)
        (htail.drop (List.subset_cons_self key seen) hne)⟩
    · have hne : key ≠ g.name := hname ▸ (hg f hf).name_ne.symm
      obtain ⟨r₁', hfirst, hfilled⟩ := ih hfields hf
      obtain ⟨r₁, hfr, hgr⟩ := (hg f hf).swap _ _ _ _ _ _ hread hfirst
      exact ⟨r₁, hfr, .present (by simpa [Fields.get?, hne] using hget) hgr hfilled⟩
  | @absent g fields r r' hget hseen htail ih =>
    subst hm
    obtain ⟨hg, hfields⟩ := List.pairwise_cons.1 hapart
    rcases List.mem_cons.1 hf with rfl | hf
    · simp [Fields.get?, hname] at hget
    · have hne : key ≠ g.name := hname ▸ (hg f hf).name_ne.symm
      obtain ⟨r₁, hfr, hfilled⟩ := ih hfields hf
      exact ⟨r₁, hfr, .absent (by simpa [Fields.get?, hne] using hget)
        (fun hr => List.mem_cons_of_mem _ (hseen hr)) hfilled⟩

end Filled

/-- The members, in whatever order, fill the record as the fields do. -/
theorem readMembersInto_of_filled {d : Dialect} {fields : List (RecordField ρ)}
    (hapart : fields.Pairwise RecordField.Apart) {members : List (String × Json)}
    (hkeys : (members.map (·.1)).Nodup)
    (hnamed : ∀ key ∈ members.map (·.1), ∀ f ∈ fields, f.answersTo key = true → f.name = key)
    {seen : List String} (hnew : ∀ key ∈ members.map (·.1), key ∉ seen) {r r₂ : ρ}
    (h : Filled d members seen fields r r₂) :
    readMembersInto d fields seen r (Tree.ofFields members) = .ok r₂ := by
  induction members generalizing seen r with
  | nil =>
    obtain ⟨rfl, hseen⟩ := h.eq_of_nil
    have hfind : fields.find? (fun f => f.required && !seen.contains f.name) = none := by
      rw [List.find?_eq_none]
      intro f hf
      simpa using hseen f hf
    rw [Tree.ofFields, readMembersInto, hfind]
  | cons m rest ih =>
    obtain ⟨key, j⟩ := m
    obtain ⟨hkey, hrest⟩ := List.nodup_cons.1 hkeys
    obtain ⟨hfirst, hnamed⟩ := List.forall_mem_cons.1 hnamed
    obtain ⟨hunseen, hnew⟩ := List.forall_mem_cons.1 hnew
    rw [Tree.ofFields, readMembersInto]
    cases hfind : fields.find? (·.answersTo key) with
    | none =>
      have hne : ∀ f ∈ fields, key ≠ f.name := by
        rintro f hf rfl
        exact List.find?_eq_none.1 hfind f hf f.answersTo_name
      exact ih hrest hnamed hnew (h.drop (List.Subset.refl seen) hne)
    | some f =>
      have hf := List.mem_of_find?_eq_some hfind
      have hname : f.name = key := hfirst f hf (by simpa using List.find?_some hfind)
      have hnone : Fields.get? key rest = none :=
        Classical.byContradiction fun hne => hkey (Fields.get?_ne_none_iff.1 hne)
      obtain ⟨r₁, hread, hfilled⟩ := h.front hapart hf hname hnone
      have hnew' : ∀ k ∈ rest.map (·.1), k ∉ key :: seen := by
        intro k hk hmem
        rcases List.mem_cons.1 hmem with rfl | hmem
        · exact hkey hk
        · exact hnew k hk hmem
      have hseen : ¬seen.contains key = true := by simpa using hunseen
      simp only [hname, if_neg hseen, hread]
      exact ih hrest hnamed hnew' hfilled

/-! ## Objects of members -/

/-- Members whose keys are among different ones are read as the fields look them up. -/
theorem readRecord_ofFields {record : String} {d : Dialect} {fields : List (RecordField ρ)}
    {members : List (String × Json)} (keys : List String) (hapart : fields.Pairwise RecordField.Apart)
    (hkeys : (members.map (·.1)).Sublist keys) (hnodup : keys.Nodup)
    (hnamed : ∀ key ∈ keys, ∀ f ∈ fields, f.answersTo key = true → f.name = key)
    {start r : ρ} (h : Filled d members [] fields start r) :
    readRecord record fields start d (Tree.ofJson (Json.ofFields members)) = .ok r := by
  have hdistinct := hnodup.sublist hkeys
  have hmem : ∀ key ∈ (Dict.ofList members).entries.map (·.1), key ∈ keys := by
    intro key hkey
    obtain ⟨m, hm, rfl⟩ := List.mem_map.1 hkey
    exact hkeys.subset (List.mem_map_of_mem (Dict.mem_of_mem_ofList hm))
  rw [ofFields_eq, Tree.ofJson, readRecord]
  refine readMembersInto_of_filled hapart (Dict.ofList members).ascending.nodup
    (fun key hkey => hnamed key (hmem key hkey)) (by simp) (h.congr fun k => ?_)
  exact (Dict.get?_ofList hdistinct k).symm

namespace Filled

variable {d : Dialect} {members : List (String × Json)} {seen : List String}
  {fields : List (RecordField ρ)} {f : RecordField ρ} {decode : Decoder α} {set : α → ρ → ρ} {v : α}
  {r r₂ : ρ}

/-- A field that sets what its member is decoded to. -/
theorem member {j : Json} (hf : f.read = fun d t r => do return set (← decode d t) r)
    (hget : Fields.get? f.name members = some j) (hv : decode d (Tree.ofJson j) = .ok v)
    (h : Filled d members seen fields (set v r) r₂) : Filled d members seen (f :: fields) r r₂ := by
  refine .present hget ?_ h
  rw [hf, RecordField.set_eq_ok]
  exact ⟨v, hv, rfl⟩

/-- A field whose member is left out where the record under construction has the value anyway. -/
theorem memberOrDefault (hf : f.read = fun d t r => do return set (← decode d t) r)
    (hrequired : f.required = false) {o : Option Json} (hget : Fields.get? f.name members = o)
    (hv : ∀ j ∈ o, decode d (Tree.ofJson j) = .ok v) (hdefault : o = none → set v r = r)
    (h : Filled d members seen fields (set v r) r₂) : Filled d members seen (f :: fields) r r₂ := by
  cases o with
  | none =>
    rw [hdefault rfl] at h
    exact .absent hget (by simp [hrequired]) h
  | some j => exact h.member hf hget (hv j rfl)

/-- A field that null leaves out, as its member does without a value. -/
theorem optionalMember {decode : Decoder β} {set : Option β → ρ → ρ} (toJson : β → Json)
    (o : Option β) (hf : f.read = fun d t r => do return set (← decodeOption decode d t) r)
    (hrequired : f.required = false) (hget : Fields.get? f.name members = o.map toJson)
    (hv : ∀ b ∈ o, decodeOption decode d (Tree.ofJson (toJson b)) = .ok (some b))
    (hdefault : set none r = r) (h : Filled d members seen fields (set o r) r₂) :
    Filled d members seen (f :: fields) r r₂ := by
  refine .memberOrDefault hf hrequired hget ?_ ?_ h
  · intro j hj
    obtain ⟨b, rfl, rfl⟩ := Option.map_eq_some_iff.1 hj
    exact hv b rfl
  · intro hnone
    rw [Option.map_eq_none_iff.1 hnone, hdefault]

end Filled

/-! ## Plain values -/

theorem decodeString_string (s : String) (d : Dialect) :
    decodeString d (Tree.ofJson (.string s)) = .ok s := rfl

theorem decodeBool_bool (b : Bool) (d : Dialect) : decodeBool d (Tree.ofJson (.bool b)) = .ok b := rfl

theorem decodeNat_nat {width n : Nat} (h : n < 2 ^ width) (d : Dialect) :
    decodeNat width d (Tree.ofJson (.nat n)) = .ok n := by
  simpa [Json.nat, Tree.ofJson, decodeNat] using h

/-- A value that is there is not null. -/
theorem decodeOption_of_ok {d : Dialect} {decode : Decoder α} {t : Tree} {v : α} (hnull : t ≠ .null)
    (h : decode d t = .ok v) : decodeOption decode d t = .ok (some v) := by
  unfold decodeOption
  split
  · exact absurd rfl hnull
  · rw [h]
    rfl

theorem decodeList_map {d : Dialect} {decode : Decoder β} {f : α → Json} {g : α → β} {as : List α}
    (h : ∀ a ∈ as, decode d (Tree.ofJson (f a)) = .ok (g a)) :
    decodeList decode d (Tree.ofJson (.array (as.map f))) = .ok (as.map g) := by
  rw [Tree.ofJson, decodeList]
  induction as with
  | nil => rfl
  | cons a as ih =>
    obtain ⟨ha, has⟩ := List.forall_mem_cons.1 h
    rw [List.map_cons, Tree.ofItems, List.mapM_cons, ha, ih has]
    rfl

theorem decodeList_self {d : Dialect} {decode : Decoder α} {f : α → Json} {as : List α}
    (h : ∀ a ∈ as, decode d (Tree.ofJson (f a)) = .ok a) :
    decodeList decode d (Tree.ofJson (.array (as.map f))) = .ok as := by
  rw [decodeList_map (g := fun a => a) h, List.map_id']

/-- The members of a dictionary are inserted into an empty one. -/
theorem decodeDict_entries {d : Dialect} {decode : Decoder α} {f : α → Json} (dict : Dict α)
    (h : ∀ a, decode d (Tree.ofJson (f a)) = .ok a) :
    decodeDict decode d (Tree.ofJson (.object (dict.entries.map fun e => (e.1, f e.2)))) =
      .ok dict := by
  have general : ∀ (pairs : List (String × α)) (into : Dict α),
      decodeMembers (decode d) into (Tree.ofFields (pairs.map fun e => (e.1, f e.2))) =
        .ok (into.insertMany pairs) := by
    intro pairs
    induction pairs with
    | nil => exact fun _ => rfl
    | cons e pairs ih =>
      intro into
      rw [List.map_cons, Tree.ofFields, decodeMembers, h]
      exact ih (into.insert e.1 e.2)
  rw [Tree.ofJson, decodeDict, general, ← Dict.ofList, Dict.ofList_entries]

end Egress.Json
