import Egress.Dict

/-!
# What the operations on dictionaries do to look-ups

`get?_filter` and its like complete the equations beside the definitions: with them every
operation is a rewrite on `get?`, and two dictionaries are compared by `ext_get?`.
-/

set_option autoImplicit false

namespace Egress

namespace Fields

variable {α : Type}

@[simp] theorem get?_nil (k : String) : get? k ([] : List (String × α)) = none := rfl

@[simp] theorem get?_cons (k key : String) (v : α) (fields : List (String × α)) :
    get? k ((key, v) :: fields) = if key = k then some v else get? k fields := rfl

theorem get?_ne_none_iff {k : String} {fields : List (String × α)} :
    get? k fields ≠ none ↔ k ∈ fields.map (·.1) := by
  induction fields with
  | nil => simp [get?]
  | cons a rest ih =>
    obtain ⟨k', v⟩ := a
    by_cases hk : k' = k
    · simp [get?, hk]
    · simp [get?, hk, ih, Ne.symm hk]

@[simp] theorem get?_append (k : String) (first second : List (String × α)) :
    get? k (first ++ second) = (get? k first).or (get? k second) := by
  induction first with
  | nil => rfl
  | cons a rest ih =>
    obtain ⟨k', v⟩ := a
    by_cases hk : k' = k
    · simp [get?, hk]
    · simp [get?, hk, ih]

theorem Ascending.nodup {fields : List (String × α)} (h : Ascending fields) :
    (fields.map (·.1)).Nodup := by
  rw [List.Nodup, List.pairwise_map]
  refine h.imp fun {a b} hlt heq => ?_
  rw [heq] at hlt
  exact String.lt_irrefl _ hlt

/-- All values listed under `key`, in order. -/
def getAll (key : String) (fields : List (String × α)) : List α :=
  (fields.filter (·.1 = key)).map (·.2)

theorem getAll_cons (k key : String) (v : α) (fields : List (String × α)) :
    getAll k ((key, v) :: fields) = if key = k then v :: getAll k fields else getAll k fields := by
  by_cases hk : key = k <;> simp [getAll, hk]

/-- Of ascending entries at most one is under a key. -/
theorem Ascending.getAll {fields : List (String × α)} (h : Ascending fields) (k : String) :
    Fields.getAll k fields = (get? k fields).toList := by
  induction fields with
  | nil => rfl
  | cons a rest ih =>
    obtain ⟨key, v⟩ := a
    obtain ⟨hhead, htail⟩ := List.pairwise_cons.1 h
    rw [getAll_cons, get?_cons, ih htail]
    by_cases hk : key = k
    · subst hk
      have hnone : get? key rest = none := get?_eq_none_of_lt hhead
      rw [if_pos rfl, if_pos rfl, hnone]
      rfl
    · rw [if_neg hk, if_neg hk]

/-! ## Sums -/

/-- The sum of `f` over the values under the keys that `which` tells. -/
def sumOver (which : String → Bool) (f : α → Nat) (fields : List (String × α)) : Nat :=
  (fields.filter fun e => which e.1).foldr (fun e total => f e.2 + total) 0

theorem sumOver_cons (which : String → Bool) (f : α → Nat) (k : String) (v : α)
    (fields : List (String × α)) :
    sumOver which f ((k, v) :: fields) = (if which k then f v else 0) + sumOver which f fields := by
  cases hk : which k <;> simp [sumOver, hk]

/-- What stood under the key goes out of the sum, and the new value comes in. -/
theorem sumOver_insert {fields : List (String × α)} (h : Ascending fields) (key : String) (value : α)
    (which : String → Bool) (f : α → Nat) :
    sumOver which f (insert key value fields) +
        (if which key then (get? key fields).elim 0 f else 0) =
      sumOver which f fields + (if which key then f value else 0) := by
  induction fields with
  | nil =>
    rw [insert, sumOver_cons, get?_nil, Option.elim_none, ite_self]
    omega
  | cons a rest ih =>
    obtain ⟨k, v⟩ := a
    obtain ⟨hhead, htail⟩ := List.pairwise_cons.1 h
    have ih := ih htail
    unfold insert
    split
    case isTrue hlt =>
      have hnone : get? key ((k, v) :: rest) = none := get?_eq_none_of_lt fun e he => by
        rcases List.mem_cons.1 he with rfl | he
        · exact hlt
        · exact String.lt_trans hlt (hhead e he)
      rw [hnone, sumOver_cons, Option.elim_none, ite_self]
      omega
    case isFalse =>
      split
      case isTrue heq =>
        subst heq
        rw [sumOver_cons, sumOver_cons, get?_cons, if_pos rfl, Option.elim_some]
        omega
      case isFalse hne =>
        rw [sumOver_cons, sumOver_cons, get?_cons, if_neg (Ne.symm hne)]
        omega

end Fields

namespace Dict

variable {α : Type}

theorem get?_filter (d : Dict α) (keep : String → α → Bool) (k : String) :
    (d.filter keep).get? k = (d.get? k).filter (keep k) := by
  apply Option.ext
  intro v
  rw [get?_filter_eq_some_iff, Option.filter_eq_some_iff]

/-- A filter that keeps less makes an earlier one needless. -/
theorem filter_filter_of_imp (d : Dict α) {first second : String → α → Bool}
    (h : ∀ k v, second k v = true → first k v = true) :
    (d.filter first).filter second = d.filter second := by
  apply ext_get?
  intro k
  rw [get?_filter, get?_filter, get?_filter, Option.filter_filter]
  congr 1
  funext v
  cases hv : second k v with
  | true => rw [h k v hv, Bool.and_self]
  | false => rw [Bool.and_false]

theorem isEmpty_iff {d : Dict α} : d.isEmpty = true ↔ d = ∅ := by
  refine ⟨fun h => ext_get? fun k => ?_, fun h => h ▸ rfl⟩
  rw [get?, List.isEmpty_iff.1 h]
  rfl

theorem get?_insert_self (d : Dict α) (k : String) (v : α) : (d.insert k v).get? k = some v := by
  rw [get?_insert, if_pos rfl]

theorem get?_insert_of_ne (d : Dict α) {key k : String} (v : α) (h : key ≠ k) :
    (d.insert key v).get? k = d.get? k := by
  rw [get?_insert, if_neg h]

theorem insert_insert (d : Dict α) (k : String) (v w : α) : (d.insert k v).insert k w = d.insert k w := by
  refine ext_get? fun k' => ?_
  simp only [get?_insert]
  split <;> rfl

theorem get?_erase_self (d : Dict α) (k : String) : (d.erase k).get? k = none := by
  rw [get?_erase, if_pos rfl]

theorem get?_erase_of_ne (d : Dict α) {key k : String} (h : key ≠ k) :
    (d.erase key).get? k = d.get? k := by
  rw [get?_erase, if_neg h]

theorem get?_map {β : Type} (d : Dict α) (f : α → β) (k : String) :
    (d.map f).get? k = (d.get? k).map f := by
  have general : ∀ fields : List (String × α),
      Fields.get? k (fields.map fun e => (e.1, f e.2)) = (Fields.get? k fields).map f := by
    intro fields
    induction fields with
    | nil => rfl
    | cons a rest ih =>
      obtain ⟨key, v⟩ := a
      by_cases hk : key = k
      · simp [hk]
      · simp [hk, ih]
  exact general d.entries

/-- Dictionaries with the same look-ups, apart from the values, have the same keys. -/
theorem keys_congr {β : Type} {a : Dict α} {b : Dict β}
    (h : ∀ k, (a.get? k).isSome = (b.get? k).isSome) : a.keys = b.keys := by
  have hunit : (a.map fun _ => ()) = b.map fun _ => () := by
    refine ext_get? fun k => ?_
    have hk := h k
    rw [get?_map, get?_map]
    cases ha : a.get? k <;> cases hb : b.get? k <;> simp_all
  have hkeys := congrArg keys hunit
  simpa [keys, map, Function.comp_def] using hkeys

/-- The sum of `f` over the entries under the keys that `which` tells. -/
def sumOver (d : Dict α) (which : String → Bool) (f : α → Nat) : Nat := Fields.sumOver which f d.entries

theorem sumOver_insert (d : Dict α) (key : String) (value : α) (which : String → Bool) (f : α → Nat) :
    (d.insert key value).sumOver which f + (if which key then (d.get? key).elim 0 f else 0) =
      d.sumOver which f + (if which key then f value else 0) :=
  Fields.sumOver_insert d.ascending key value which f

/-! ## Dictionaries of pairs -/

theorem getLast?_getAll (pairs : List (String × α)) (k : String) :
    (Fields.getAll k pairs).getLast? = (pairs.filter (·.1 = k)).getLast?.map (·.2) :=
  List.getLast?_map ..

/-- The last one of the pairs with the key is the one that stays. -/
theorem get?_ofList_getAll (pairs : List (String × α)) (k : String) :
    (ofList pairs).get? k = (Fields.getAll k pairs).getLast? := by
  rw [ofList, get?_insertMany, get?_empty, Option.or_none, getLast?_getAll]

theorem entries_insertMany (d : Dict α) (pairs : List (String × α)) :
    (d.insertMany pairs).entries =
      pairs.foldl (fun acc e => Fields.insert e.1 e.2 acc) d.entries := by
  induction pairs generalizing d with
  | nil => rfl
  | cons e rest ih => exact ih (d.insert e.1 e.2)

theorem mem_of_mem_insertMany {d : Dict α} {pairs : List (String × α)} {e : String × α}
    (h : e ∈ (d.insertMany pairs).entries) : e ∈ pairs ∨ e ∈ d.entries := by
  induction pairs generalizing d with
  | nil => exact .inr h
  | cons a rest ih =>
    rcases @ih (d.insert a.1 a.2) h with h | h
    · exact .inl (List.mem_cons_of_mem a h)
    · rcases Fields.mem_insert h with rfl | h
      · exact .inl List.mem_cons_self
      · exact .inr h

theorem mem_of_mem_ofList {pairs : List (String × α)} {e : String × α}
    (h : e ∈ (ofList pairs).entries) : e ∈ pairs := by
  rcases mem_of_mem_insertMany h with h | h
  · exact h
  · cases h

theorem ofList_eq_empty_iff {pairs : List (String × α)} : ofList pairs = ∅ ↔ pairs = [] := by
  refine ⟨fun h => ?_, fun h => h ▸ rfl⟩
  cases pairs with
  | nil => rfl
  | cons e rest =>
    have hget := get?_ofList_getAll (e :: rest) e.1
    rw [h, Fields.getAll_cons, if_pos rfl, List.getLast?_cons] at hget
    cases hget

/-- Pairs that all have different keys go over what was there. -/
theorem get?_insertMany_of_nodup (d : Dict α) {pairs : List (String × α)} (h : (pairs.map (·.1)).Nodup)
    (k : String) : (d.insertMany pairs).get? k = (Fields.get? k pairs).or (d.get? k) := by
  induction pairs generalizing d with
  | nil => rfl
  | cons e rest ih =>
    obtain ⟨key, v⟩ := e
    obtain ⟨hnew, hrest⟩ := List.nodup_cons.1 h
    have step : d.insertMany ((key, v) :: rest) = (d.insert key v).insertMany rest := rfl
    rw [step, ih _ hrest, get?_insert]
    by_cases hk : key = k
    · subst hk
      have hnone : Fields.get? key rest = none :=
        Classical.byContradiction fun hne => hnew (Fields.get?_ne_none_iff.1 hne)
      simp [Fields.get?, hnone]
    · simp [Fields.get?, hk]

theorem get?_overlay (d above : Dict α) (k : String) :
    (d.overlay above).get? k = (above.get? k).or (d.get? k) :=
  d.get?_insertMany_of_nodup above.ascending.nodup k

theorem overlay_assoc (first second third : Dict α) :
    (first.overlay second).overlay third = first.overlay (second.overlay third) :=
  ext_get? fun k => by simp only [get?_overlay, Option.or_assoc]

theorem overlay_self (d : Dict α) : d.overlay d = d :=
  ext_get? fun k => by rw [get?_overlay, Option.or_self]

theorem mem_keys_iff {d : Dict α} {k : String} : k ∈ d.keys ↔ d.get? k ≠ none := Fields.get?_ne_none_iff.symm

/-- The keys of one laid over another are those of both. -/
theorem mem_keys_overlay {d above : Dict α} {k : String} :
    k ∈ (d.overlay above).keys ↔ k ∈ d.keys ∨ k ∈ above.keys := by
  rw [mem_keys_iff, mem_keys_iff, mem_keys_iff, get?_overlay, Ne, Option.or_eq_none_iff,
    Classical.not_and_iff_not_or_not, or_comm]

/-- Of pairs that all have different keys each one stays. -/
theorem get?_ofList {pairs : List (String × α)} (h : (pairs.map (·.1)).Nodup) (k : String) :
    (ofList pairs).get? k = Fields.get? k pairs := by
  rw [ofList, get?_insertMany_of_nodup _ h, get?_empty, Option.or_none]

theorem get?_ofList_eq_some_iff {pairs : List (String × α)} (h : (pairs.map (·.1)).Nodup) {k : String}
    {v : α} : (ofList pairs).get? k = some v ↔ (k, v) ∈ pairs := by
  rw [get?_ofList h]
  induction pairs with
  | nil => simp
  | cons e rest ih =>
    obtain ⟨key, w⟩ := e
    obtain ⟨hnew, hrest⟩ := List.nodup_cons.1 h
    by_cases hk : key = k
    · subst hk
      have hnot : (key, v) ∉ rest := fun hmem => hnew (List.mem_map.2 ⟨(key, v), hmem, rfl⟩)
      simp [hnot, eq_comm]
    · simp [hk, ih hrest, Ne.symm hk]

theorem insertMany_congr (d : Dict α) {pairs pairs' : List (String × α)}
    (h : ofList pairs = ofList pairs') : d.insertMany pairs = d.insertMany pairs' := by
  refine ext_get? fun k => ?_
  have hk := congrArg (fun d : Dict α => d.get? k) h
  simp only [ofList, get?_insertMany, get?_empty, Option.or_none] at hk
  rw [get?_insertMany, get?_insertMany, hk]

/-- The order of pairs that all have different keys makes no difference. -/
theorem insertMany_perm (d : Dict α) {pairs pairs' : List (String × α)} (h : (pairs.map (·.1)).Nodup)
    (hperm : pairs.Perm pairs') : d.insertMany pairs = d.insertMany pairs' := by
  have h' : (pairs'.map (·.1)).Nodup := (hperm.map (·.1)).nodup h
  refine d.insertMany_congr (ext_get? fun k => Option.ext fun v => ?_)
  rw [get?_ofList_eq_some_iff h, get?_ofList_eq_some_iff h', hperm.mem_iff]

theorem ofList_entries (d : Dict α) : ofList d.entries = d :=
  ext_get? fun k => get?_ofList d.ascending.nodup k

end Dict

end Egress
