import Egress.Cache.Key
import Egress.Maintenance
import Egress.Proofs.Dict

/-!
# What a store answers

`Cache.peek` is what a look-up answers at a time, without the removal of an expired entry. Each operation
is an equation on it, and from some time on sweeps and look-ups change nothing. A key of a call belongs
to the id it was made for and to no other one (`belongsTo_key`), if neither holds the separator.
-/

set_option autoImplicit false

namespace Egress

namespace Cache

variable {α : Type}

/-- The value under a key at a time. -/
def peek (c : Cache α) (t : Nat) (key : String) : Option α :=
  ((c.entries.get? key).filter fun e => !e.expired t).map (·.value)

theorem peek_eq_some_iff {c : Cache α} {t : Nat} {key : String} {value : α} :
    c.peek t key = some value ↔ ∃ expiry, c.entries.get? key = some ⟨value, expiry⟩ ∧ t < expiry := by
  simp only [peek, Option.map_eq_some_iff, Option.filter_eq_some_iff, Entry.expired,
    Bool.not_eq_true', decide_eq_false_iff_not, Nat.not_le]
  constructor
  · rintro ⟨⟨value, expiry⟩, ⟨hget, hlt⟩, rfl⟩
    exact ⟨expiry, hget, hlt⟩
  · rintro ⟨expiry, hget, hlt⟩
    exact ⟨⟨value, expiry⟩, ⟨hget, hlt⟩, rfl⟩

theorem peek_congr {c c' : Cache α} {key : String} (h : c.entries.get? key = c'.entries.get? key)
    (t : Nat) : c.peek t key = c'.peek t key := by
  unfold peek
  rw [h]

@[simp] theorem peek_empty (t : Nat) (key : String) : (empty : Cache α).peek t key = none := rfl

theorem peek_put (c : Cache α) (now : Nat) (key : String) (value : α) (ttl t : Nat) (k : String) :
    (c.put now key value ttl).peek t k =
      if key = k then (if t < now + ttl then some value else none) else c.peek t k := by
  by_cases hk : key = k
  · subst hk
    by_cases ht : t < now + ttl <;>
      simp [peek, put, Dict.get?_insert_self, Entry.expired, ht, Option.filter]
  · rw [if_neg hk]
    exact peek_congr (Dict.get?_insert_of_ne _ _ hk) t

theorem get_fst (c : Cache α) (now : Nat) (key : String) : (c.get now key).1 = c.peek now key := by
  unfold get peek
  cases c.entries.get? key with
  | none => rfl
  | some e => by_cases he : e.expired now = true <;> simp [he, Option.filter]

/-- A look-up removes nothing that is served later on. -/
theorem peek_get (c : Cache α) {now t : Nat} (h : now ≤ t) (key k : String) :
    (c.get now key).2.peek t k = c.peek t k := by
  unfold get
  cases he : c.entries.get? key with
  | none => rfl
  | some e =>
    dsimp only
    split
    · next hexp =>
      by_cases hk : key = k
      · subst hk
        have hlate : e.expired t = true := by
          simp only [Entry.expired, decide_eq_true_eq] at hexp ⊢
          omega
        simp [peek, Dict.get?_erase_self, he, hlate, Option.filter]
      · exact peek_congr (Dict.get?_erase_of_ne _ hk) t
    · rfl

/-- A sweep removes nothing that is served later on. -/
theorem peek_sweep (c : Cache α) {now t : Nat} (h : now ≤ t) (k : String) :
    (c.sweep now).peek t k = c.peek t k := by
  unfold peek sweep
  rw [Dict.get?_filter]
  cases c.entries.get? k with
  | none => rfl
  | some e =>
    by_cases he : e.expired t = true
    · by_cases hn : e.expired now = true <;> simp [he, hn, Option.filter]
    · have hn : e.expired now = false := by
        simp only [Entry.expired, decide_eq_true_eq, decide_eq_false_iff_not] at he ⊢
        omega
      simp [hn, Option.filter]

theorem get?_of_get?_get {c : Cache α} {now : Nat} {key k : String} {e : Entry α}
    (h : (c.get now key).2.entries.get? k = some e) : c.entries.get? k = some e := by
  unfold get at h
  split at h
  · exact h
  · split at h
    · exact (Dict.get?_filter_eq_some_iff.1 h).1
    · exact h

theorem get?_of_get?_sweep {c : Cache α} {now : Nat} {k : String} {e : Entry α}
    (h : (c.sweep now).entries.get? k = some e) : c.entries.get? k = some e :=
  (Dict.get?_filter_eq_some_iff.1 h).1

theorem sweep_sweep (c : Cache α) {t u : Nat} (h : t ≤ u) : (c.sweep t).sweep u = c.sweep u := by
  unfold sweep
  rw [Dict.filter_filter_of_imp]
  intro k e he
  simp only [Entry.expired, Bool.not_eq_true', decide_eq_false_iff_not] at he ⊢
  omega

theorem peek_invalidate (c : Cache α) (key : String) (t : Nat) (k : String) :
    (c.invalidate key).peek t k = if key = k then none else c.peek t k := by
  by_cases hk : key = k
  · subst hk
    simp [peek, invalidate, Dict.get?_erase_self]
  · rw [if_neg hk]
    exact peek_congr (Dict.get?_erase_of_ne _ hk) t

theorem peek_invalidateEndpoint (c : Cache α) (id : String) (t : Nat) (k : String) :
    (c.invalidateEndpoint id).peek t k = if belongsTo k id then none else c.peek t k := by
  unfold peek invalidateEndpoint
  rw [Dict.get?_filter]
  cases belongsTo k id <;> cases c.entries.get? k <;> simp [Option.filter]

theorem belongsTo_iff {key id : String} :
    belongsTo key id = true ↔ key = id ∨ ∃ rest, key.toList = id.toList ++ keySeparator :: rest := by
  unfold belongsTo
  rw [Bool.or_eq_true, decide_eq_true_eq, List.isPrefixOf_iff_prefix]
  refine or_congr_right ⟨?_, ?_⟩
  · rintro ⟨rest, hrest⟩
    exact ⟨rest, by rw [← hrest, List.append_assoc, List.singleton_append]⟩
  · rintro ⟨rest, hrest⟩
    exact ⟨rest, by rw [hrest, List.append_assoc, List.singleton_append]⟩

end Cache

/-! ## Keys of endpoints -/

namespace KeyStrategy

/-- A text is cut in one way at the first occurrence of a separator. -/
theorem cut_inj {sep : Char} {cs cs' rest rest' : List Char} (h : sep ∉ cs) (h' : sep ∉ cs')
    (heq : cs ++ sep :: rest = cs' ++ sep :: rest') : cs = cs' ∧ rest = rest' := by
  rcases List.append_eq_append_iff.1 heq with ⟨_ | ⟨c, more⟩, htext, hrest⟩ |
    ⟨_ | ⟨c, more⟩, htext, hrest⟩ <;> simp only [List.nil_append, List.cons_append,
      List.cons.injEq, true_and] at hrest
  · exact ⟨by simpa using htext.symm, hrest⟩
  · exact absurd (by simp [htext, ← hrest.1]) h'
  · exact ⟨by simpa using htext, hrest.symm⟩
  · exact absurd (by simp [htext, ← hrest.1]) h

/-- A key is the id, or the id, the separator and a text. -/
theorem toList_key (strategy : KeyStrategy) (id : String) (options : CallOptions) :
    (strategy.key id options).toList = id.toList ∨
      ∃ text, (strategy.key id options).toList = id.toList ++ keySeparator :: text := by
  cases strategy with
  | endpoint => exact .inl rfl
  | request =>
    unfold key
    dsimp only
    split
    · exact .inl rfl
    · exact .inr ⟨(fingerprint options).toList, by simp⟩

/-- A key belongs to the id it was made for and to no other one. -/
theorem belongsTo_key (strategy : KeyStrategy) {id other : String} (options : CallOptions)
    (hid : keySeparator ∉ id.toList) (hother : keySeparator ∉ other.toList) :
    Cache.belongsTo (strategy.key id options) other = true ↔ id = other := by
  rw [Cache.belongsTo_iff]
  rcases strategy.toList_key id options with h | ⟨text, h⟩
  · rw [h, ← String.toList_inj, h, String.toList_inj]
    refine or_iff_left ?_
    rintro ⟨rest, hrest⟩
    exact hid (hrest ▸ by simp)
  · rw [h, ← String.toList_inj, h]
    constructor
    · rintro (heq | ⟨rest, hrest⟩)
      · exact absurd (heq ▸ by simp) hother
      · exact String.toList_inj.1 (cut_inj hid hother hrest).1
    · rintro rfl
      exact .inr ⟨text, rfl⟩

theorem id_eq_of_key_eq (strategy : KeyStrategy) {id other : String} {options options' : CallOptions}
    (hid : keySeparator ∉ id.toList) (hother : keySeparator ∉ other.toList)
    (h : strategy.key id options = strategy.key other options') : id = other := by
  refine (strategy.belongsTo_key options hid hother).1 ?_
  rw [h]
  exact (strategy.belongsTo_key options' hother hother).2 rfl

end KeyStrategy

/-! ## Periodic sweeps -/

namespace Maintenance

theorem lastTick?_le {start period since now tick : Nat}
    (h : lastTick? start period since now = some tick) : since < tick ∧ tick ≤ now := by
  unfold lastTick? at h
  dsimp only at h
  split at h
  · next hb =>
    simp only [Bool.and_eq_true, decide_eq_true_eq] at hb
    simp only [Option.some.injEq] at h
    have := Nat.div_mul_le_self (now - start) period
    omega
  · cases h

theorem lastTick?_self (start period now : Nat) : lastTick? start period now now = none := by
  cases h : lastTick? start period now now with
  | none => rfl
  | some tick =>
    have := lastTick?_le h
    omega

theorem peek_sweepCache {α : Type} (m : Maintenance) (c : Cache α) {since now t : Nat} (h : now ≤ t)
    (k : String) : (m.sweepCache since now c).peek t k = c.peek t k := by
  unfold sweepCache
  cases htick : lastTick? m.start m.cachePeriod since now with
  | none => rfl
  | some tick => exact c.peek_sweep (Nat.le_trans (lastTick?_le htick).2 h) k

theorem get?_of_get?_sweepCache {α : Type} {m : Maintenance} {c : Cache α} {since now : Nat}
    {k : String} {e : Cache.Entry α} (h : (m.sweepCache since now c).entries.get? k = some e) :
    c.entries.get? k = some e := by
  unfold sweepCache at h
  cases htick : lastTick? m.start m.cachePeriod since now with
  | none => rwa [htick] at h
  | some tick =>
    rw [htick] at h
    exact Cache.get?_of_get?_sweep h

/-- The last sweep of a time that is cut in two is the last one of the second part, or of the first part
if there is none in the second. -/
theorem lastTick?_cut (start period : Nat) {since between now : Nat} (h : since ≤ between)
    (h' : between ≤ now) :
    lastTick? start period since now =
      (lastTick? start period between now).or (lastTick? start period since between) := by
  have hle : (between - start) / period * period ≤ (now - start) / period * period :=
    Nat.mul_le_mul_right _ (Nat.div_le_div_right (Nat.sub_le_sub_right h' start))
  have hback : (now - start) / period * period ≤ between - start →
      (now - start) / period * period ≤ (between - start) / period * period := by
    intro hbetween
    rcases Nat.eq_zero_or_pos period with rfl | hpos
    · simp
    · exact Nat.mul_le_mul_right _ ((Nat.le_div_iff_mul_le hpos).2 hbetween)
  unfold lastTick?
  simp only [Bool.and_eq_true, decide_eq_true_eq]
  by_cases hsecond : start < start + (now - start) / period * period ∧
      between < start + (now - start) / period * period
  · rw [if_pos hsecond, if_pos ⟨hsecond.1, by omega⟩]
    rfl
  · rw [if_neg hsecond, Option.none_or]
    have heq : (now - start) / period * period = (between - start) / period * period := by omega
    rw [heq]

/-- Sweeping in two parts of a time is sweeping once, where a later sweep makes an earlier one needless. -/
theorem elim_lastTick?_cut {α : Type} {sweep : α → Nat → α}
    (hsweep : ∀ a {t u : Nat}, t ≤ u → sweep (sweep a t) u = sweep a u) (start period : Nat) (a : α)
    {since between now : Nat} (h : since ≤ between) (h' : between ≤ now) :
    let first := (lastTick? start period since between).elim a (sweep a)
    (lastTick? start period between now).elim first (sweep first) =
      (lastTick? start period since now).elim a (sweep a) := by
  intro first
  rw [lastTick?_cut start period h h']
  cases hfirst : lastTick? start period since between with
  | none => simp only [first, hfirst, Option.elim_none, Option.or_none]
  | some tick =>
    simp only [first, hfirst, Option.elim_some]
    cases hsecond : lastTick? start period between now with
    | none => rfl
    | some tick' =>
      have hle := (lastTick?_le hfirst).2
      have hlt := (lastTick?_le hsecond).1
      exact hsweep a (by omega)

theorem sweepCache_cut {α : Type} (m : Maintenance) (c : Cache α) {since between now : Nat}
    (h : since ≤ between) (h' : between ≤ now) :
    m.sweepCache between now (m.sweepCache since between c) = m.sweepCache since now c :=
  elim_lastTick?_cut Cache.sweep_sweep m.start m.cachePeriod c h h'

end Maintenance

end Egress
