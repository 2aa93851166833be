/-!
Finite maps keyed by text.

A `Dict` lists its entries in ascending key order (by code point), each key once, so two dictionaries
with the same look-ups are equal (`Dict.ext_get?`) and whatever is listed from one is in key order.
Each operation is described by what it does to `get?`.
-/

set_option autoImplicit false

namespace Egress

namespace Fields

variable {α : Type}

/-- The first value listed under `key`. -/
def get? (key : String) : List (String × α) → Option α
  | [] => none
  | (k, v) :: rest => if k = key then some v else get? key rest

/-- Puts `value` under `key` into an ascending list, replacing what was there. -/
def insert (key : String) (value : α) : List (String × α) → List (String × α)
  | [] => [(key, value)]
  | (k, v) :: rest =>
    if key < k then (key, value) :: (k, v) :: rest
    else if key = k then (key, value) :: rest
    else (k, v) :: insert key value rest

/-- An entry list is ascending when every key is below all later ones. -/
def Ascending (fields : List (String × α)) : Prop :=
  fields.Pairwise fun a b => a.1 < b.1

theorem mem_insert {key : String} {value : α} {fields : List (String × α)} {e : String × α}
    (h : e ∈ insert key value fields) : e = (key, value) ∨ e ∈ fields := by
  induction fields with
  | nil => simpa [insert] using h
  | cons a rest ih =>
    obtain ⟨k, v⟩ := a
    unfold insert at h
    split at h
    · simpa using h
    · split at h
      · rcases List.mem_cons.1 h with h | h
        · exact .inl h
        · exact .inr (List.mem_cons_of_mem _ h)
      · rcases List.mem_cons.1 h with h | h
        · exact .inr (h ▸ List.mem_cons_self)
        · rcases ih h with h | h
          · exact .inl h
          · exact .inr (List.mem_cons_of_mem _ h)

theorem lt_of_not_lt_of_ne {a b : String} (h : ¬a < b) (hne : a ≠ b) : b < a := by
  rcases String.not_lt.1 h with hba
  by_cases hlt : b < a
  · exact hlt
  · exact absurd (String.le_antisymm (String.not_lt.1 hlt) hba) hne

theorem Ascending.insert {key : String} {value : α} {fields : List (String × α)}
    (h : Ascending fields) : Ascending (Fields.insert key value fields) := by
  induction fields with
  | nil => simp [Fields.insert, Ascending]
  | cons a rest ih =>
    obtain ⟨k, v⟩ := a
    obtain ⟨hhead, htail⟩ := List.pairwise_cons.1 h
    unfold Fields.insert
    split
    case isTrue hlt =>
      refine List.pairwise_cons.2 ⟨fun e he => ?_, h⟩
      rcases List.mem_cons.1 he with rfl | he
      · exact hlt
      · exact String.lt_trans hlt (hhead e he)
    case isFalse hnlt =>
      split
      case isTrue heq => exact List.pairwise_cons.2 ⟨fun e he => heq ▸ hhead e he, htail⟩
      case isFalse hne =>
        refine List.pairwise_cons.2 ⟨fun e he => ?_, ih htail⟩
        rcases mem_insert he with rfl | he
        · exact lt_of_not_lt_of_ne hnlt hne
        · exact hhead e he

theorem get?_insert (key : String) (value : α) (fields : List (String × α)) (k : String) :
    get? k (insert key value fields) = if key = k then some value else get? k fields := by
  induction fields with
  | nil => simp [insert, get?]
  | cons a rest ih =>
    obtain ⟨k', v⟩ := a
    unfold insert
    split
    · simp [get?]
    · split
      case isTrue heq => subst heq; by_cases h : key = k <;> simp [get?, h]
      case isFalse hne =>
        by_cases h : k' = k
        · subst h; simp [get?, hne]
        · simp [get?, h, ih]

theorem get?_eq_none_of_lt {key : String} {fields : List (String × α)}
    (h : ∀ e ∈ fields, key < e.1) : get? key fields = none := by
  induction fields with
  | nil => rfl
  | cons a rest ih =>
    have hk : key < a.1 := h a List.mem_cons_self
    have hne : a.1 ≠ key := fun he => String.lt_irrefl _ (he ▸ hk)
    simpa [get?, hne] using ih fun e he => h e (List.mem_cons_of_mem _ he)

theorem get?_eq_some_iff {key : String} {value : α} {fields : List (String × α)}
    (h : Ascending fields) : get? key fields = some value ↔ (key, value) ∈ fields := by
  induction fields with
  | nil => simp [get?]
  | cons a rest ih =>
    obtain ⟨k, v⟩ := a
    obtain ⟨hhead, htail⟩ := List.pairwise_cons.1 h
    by_cases hk : k = key
    · subst hk
      have hnot : (k, value) ∉ rest := fun hm => absurd (hhead _ hm) (String.lt_irrefl k)
      simp [get?, hnot, eq_comm]
    · simp [get?, hk, ih htail, Ne.symm hk]

theorem ext_get? {a b : List (String × α)} (ha : Ascending a) (hb : Ascending b)
    (h : ∀ k, get? k a = get? k b) : a = b := by
  induction a generalizing b with
  | nil =>
    cases b with
    | nil => rfl
    | cons e rest => have := h e.1; simp [get?] at this
  | cons x xs ih =>
    cases b with
    | nil => have := h x.1; simp [get?] at this
    | cons y ys =>
      obtain ⟨hx, hxs⟩ := List.pairwise_cons.1 ha
      obtain ⟨hy, hys⟩ := List.pairwise_cons.1 hb
      have hkey : x.1 = y.1 := by
        by_cases hlt : x.1 < y.1
        · have hnone : get? x.1 (y :: ys) = none := get?_eq_none_of_lt fun e he => by
            rcases List.mem_cons.1 he with rfl | he
            · exact hlt
            · exact String.lt_trans hlt (hy e he)
          have := h x.1
          rw [hnone] at this
          simp [get?] at this
        · by_cases hne : x.1 = y.1
          · exact hne
          · have hgt := lt_of_not_lt_of_ne hlt hne
            have hnone : get? y.1 (x :: xs) = none := get?_eq_none_of_lt fun e he => by
              rcases List.mem_cons.1 he with rfl | he
              · exact hgt
              · exact String.lt_trans hgt (hx e he)
            have := h y.1
            rw [hnone] at this
            simp [get?] at this
      have hval : x.2 = y.2 := by have := h x.1; simpa [get?, hkey] using this
      have hxy : x = y := Prod.ext hkey hval
      subst hxy
      refine congrArg (x :: ·) (ih hxs hys fun k => ?_)
      by_cases hk : x.1 = k
      · subst hk
        rw [get?_eq_none_of_lt hx, get?_eq_none_of_lt hy]
      · have := h k; simpa [get?, hk] using this

end Fields

/-- A finite map from text, listed in ascending key order. -/
structure Dict (α : Type) where
  entries : List (String × α)
  ascending : Fields.Ascending entries
  deriving DecidableEq

namespace Dict

variable {α β : Type}

/-- The dictionary without entries. -/
def empty : Dict α := ⟨[], List.Pairwise.nil⟩

instance : EmptyCollection (Dict α) := ⟨empty⟩

instance : Inhabited (Dict α) := ⟨empty⟩

/-- The value under `key`. -/
def get? (d : Dict α) (key : String) : Option α := Fields.get? key d.entries

/-- Whether `key` has a value. -/
def contains (d : Dict α) (key : String) : Bool := (d.get? key).isSome

/-- Sets the value under `key`. -/
def insert (d : Dict α) (key : String) (value : α) : Dict α :=
  ⟨Fields.insert key value d.entries, d.ascending.insert⟩

/-- Keeps the entries that satisfy `keep`. -/
def filter (d : Dict α) (keep : String → α → Bool) : Dict α :=
  ⟨d.entries.filter fun e => keep e.1 e.2, List.Pairwise.filter _ d.ascending⟩

/-- Removes `key`. -/
def erase (d : Dict α) (key : String) : Dict α := d.filter fun k _ => k ≠ key

def size (d : Dict α) : Nat := d.entries.length

/-- Whether there is no entry. -/
def isEmpty (d : Dict α) : Bool := d.entries.isEmpty

/-- The keys, ascending. -/
def keys (d : Dict α) : List String := d.entries.map (·.1)

/-- The values, in key order. -/
def values (d : Dict α) : List α := d.entries.map (·.2)

/-- Replaces every value by its image. -/
def map (d : Dict α) (f : α → β) : Dict β :=
  ⟨d.entries.map fun e => (e.1, f e.2), by
    simpa [Fields.Ascending, List.pairwise_map] using d.ascending⟩

/-- Inserts the pairs from left to right, so that the last one under a key stays. -/
def insertMany (d : Dict α) (pairs : List (String × α)) : Dict α :=
  pairs.foldl (fun acc e => acc.insert e.1 e.2) d

/-- The dictionary of the pairs; the last one under a key stays. -/
def ofList (pairs : List (String × α)) : Dict α := empty.insertMany pairs

/-- All entries of both, those of `above` where both have the key. -/
def overlay (d above : Dict α) : Dict α := d.insertMany above.entries

@[simp] theorem get?_empty (k : String) : (empty : Dict α).get? k = none := rfl

theorem get?_insert (d : Dict α) (key : String) (value : α) (k : String) :
    (d.insert key value).get? k = if key = k then some value else d.get? k :=
  Fields.get?_insert ..

theorem get?_eq_some_iff {d : Dict α} {k : String} {v : α} :
    d.get? k = some v ↔ (k, v) ∈ d.entries := Fields.get?_eq_some_iff d.ascending

theorem get?_filter_eq_some_iff {d : Dict α} {keep : String → α → Bool} {k : String} {v : α} :
    (d.filter keep).get? k = some v ↔ d.get? k = some v ∧ keep k v = true := by
  simp [get?_eq_some_iff, filter, List.mem_filter]

theorem get?_erase (d : Dict α) (key k : String) :
    (d.erase key).get? k = if key = k then none else d.get? k := by
  apply Option.ext
  intro v
  rw [erase, get?_filter_eq_some_iff]
  by_cases h : key = k
  · simp [h]
  · simp [h, Ne.symm h]

theorem ext_get? {a b : Dict α} (h : ∀ k, a.get? k = b.get? k) : a = b := by
  cases a with | mk ea ha => cases b with | mk eb hb =>
  have : ea = eb := Fields.ext_get? ha hb h
  subst this
  rfl

theorem get?_insertMany (d : Dict α) (pairs : List (String × α)) (k : String) :
    (d.insertMany pairs).get? k =
      ((pairs.filter (·.1 = k)).getLast?.map (·.2)).or (d.get? k) := by
  induction pairs generalizing d with
  | nil => simp [insertMany]
  | cons e rest ih =>
    have step : d.insertMany (e :: rest) = (d.insert e.1 e.2).insertMany rest := rfl
    rw [step, ih, get?_insert]
    by_cases h : e.1 = k
    · simp only [h, if_true, decide_true, List.filter_cons_of_pos, List.getLast?_cons]
      cases (rest.filter (·.1 = k)).getLast? <;> simp
    · simp [h]

end Dict

end Egress
