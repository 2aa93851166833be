import Egress.Proofs.Cache.Keys
import Egress.Proofs.Call.Headers
import Egress.Proofs.Json.Reading
import Egress.Proofs.Service.Parts

/-!
# Keys do not depend on the order in which options are given

Options are put together part by part (`Listing`): entries of the two maps in some order, and members of JSON
objects likewise, at any depth.

* `Json.Same` compares JSON values whose members stand in any order, `Json.arranged` brings them into key order;
  values that are the same become one (`Json.Same.arranged_eq`).
* `KeyStrategy.get?_headerPairs`: what a key tells of the headers are the values under the names in lower case,
  which does not depend on the spelling of a name or on the order of the map.
* `KeyStrategy.key_of_listing` puts them together, and says when a key is the bare id and how the id is read off
  it.
-/

set_option autoImplicit false

namespace Egress

/-! ## JSON values -/

namespace Json

/-- The values are the same but for the order in which members of objects are listed. Of several members under
one key the last one counts. -/
inductive Same : Json → Json → Prop
  | null : Same .null .null
  | bool (b : Bool) : Same (.bool b) (.bool b)
  | int (n : Int) : Same (.int n) (.int n)
  | double (d : Double) : Same (.double d) (.double d)
  | string (s : String) : Same (.string s) (.string s)
  | array {items items' : List Json} (length : items.length = items'.length)
      (each : ∀ i (h : i < items.length) (h' : i < items'.length), Same items[i] items'[i]) :
      Same (.array items) (.array items')
  | object {fields fields' : List (String × Json)}
      (keys : ∀ key, (Dict.ofList fields).contains key = (Dict.ofList fields').contains key)
      (each : ∀ key v v', (Dict.ofList fields).get? key = some v →
        (Dict.ofList fields').get? key = some v' → Same v v') :
      Same (.object fields) (.object fields')

mutual
/-- The value with the members of every object in key order, the last one under each key. -/
def arranged : Json → Json
  | .array items => .array (arrangedItems items)
  | .object fields => .ofFields (arrangedFields fields)
  | j => j

def arrangedItems : List Json → List Json
  | [] => []
  | j :: rest => j.arranged :: arrangedItems rest

def arrangedFields : List (String × Json) → List (String × Json)
  | [] => []
  | (key, j) :: rest => (key, j.arranged) :: arrangedFields rest
end

theorem arrangedItems_eq (items : List Json) : arrangedItems items = items.map arranged := by
  induction items with
  | nil => rfl
  | cons j rest ih => rw [arrangedItems, ih, List.map_cons]

theorem getAll_arrangedFields (key : String) (fields : List (String × Json)) :
    Fields.getAll key (arrangedFields fields) = (Fields.getAll key fields).map arranged := by
  induction fields with
  | nil => rfl
  | cons m rest ih =>
    rw [arrangedFields, Fields.getAll_cons, Fields.getAll_cons, ih]
    split <;> rfl

theorem get?_arrangedFields (key : String) (fields : List (String × Json)) :
    (Dict.ofList (arrangedFields fields)).get? key = ((Dict.ofList fields).get? key).map arranged := by
  rw [Dict.get?_ofList_getAll, Dict.get?_ofList_getAll, getAll_arrangedFields, List.getLast?_map]

theorem arranged_object_eq_iff {fields fields' : List (String × Json)} :
    (object fields).arranged = (object fields').arranged ↔
      ∀ key, ((Dict.ofList fields).get? key).map arranged =
        ((Dict.ofList fields').get? key).map arranged := by
  have hentries : ∀ d d' : Dict Json, object d.entries = object d'.entries ↔ d = d' :=
    fun d d' => ⟨fun h => by cases d; cases d'; cases h; rfl, fun h => h ▸ rfl⟩
  rw [arranged, arranged, ofFields_eq, ofFields_eq, hentries]
  refine ⟨fun h key => ?_, fun h => Dict.ext_get? fun key => ?_⟩
  · rw [← get?_arrangedFields, ← get?_arrangedFields, h]
  · rw [get?_arrangedFields, get?_arrangedFields, h key]

theorem Same.arranged_eq {j j' : Json} (h : Same j j') : j.arranged = j'.arranged := by
  induction h with
  | null | bool | int | double | string => rfl
  | array length _ ih =>
    rw [arranged, arranged, arrangedItems_eq, arrangedItems_eq]
    refine congrArg _ (List.ext_getElem (by simpa using length) fun i h h' => ?_)
    rw [List.getElem_map, List.getElem_map]
    exact ih i _ _
  | @object fields fields' keys _ ih =>
    refine arranged_object_eq_iff.2 fun key => ?_
    have hkey := keys key
    unfold Dict.contains at hkey
    cases hv : (Dict.ofList fields).get? key with
    | none =>
      rw [hv, Option.isSome_none, eq_comm, Option.isSome_eq_false_iff, Option.isNone_iff_eq_none] at hkey
      rw [hkey]
    | some v =>
      rw [hv, Option.isSome_some, eq_comm, Option.isSome_iff_exists] at hkey
      obtain ⟨v', hv'⟩ := hkey
      rw [hv', Option.map_some, Option.map_some, ih key v v' hv hv']

theorem Same.of_arranged_eq (j j' : Json) (h : j.arranged = j'.arranged) : Same j j' := by
  cases hj : j <;> cases hj' : j' <;> rw [hj, hj'] at h
  case array.array items items' =>
    rw [arranged, arranged, arrangedItems_eq, arrangedItems_eq, array.injEq] at h
    refine .array (by simpa using congrArg List.length h) fun i hi hi' => ?_
    have hmem : items[i] ∈ items := List.getElem_mem hi
    have hitem := congrArg (fun l : List Json => l[i]?) h
    simp only [List.getElem?_map, List.getElem?_eq_getElem hi, List.getElem?_eq_getElem hi',
      Option.map_some, Option.some.injEq] at hitem
    exact of_arranged_eq items[i] items'[i] hitem
  case object.object fields fields' =>
    have hkeys := arranged_object_eq_iff.1 h
    refine .object (fun key => ?_) fun key v v' hv hv' => ?_
    · rw [Dict.contains, Dict.contains, ← Option.isSome_map (f := arranged), hkeys, Option.isSome_map]
    · have hmem : (key, v) ∈ fields := Dict.mem_of_mem_ofList (Dict.get?_eq_some_iff.1 hv)
      have hvalue := hkeys key
      rw [hv, hv', Option.map_some, Option.map_some, Option.some.injEq] at hvalue
      exact of_arranged_eq v v' hvalue
  all_goals first
    | (cases h; constructor)
    | (simp [arranged, ofFields_eq] at h)
termination_by sizeOf j
decreasing_by
  · have := List.sizeOf_lt_of_mem hmem
    rw [hj, array.sizeOf_spec]
    omega
  · have := List.sizeOf_lt_of_mem hmem
    rw [Prod.mk.sizeOf_spec] at this
    rw [hj, object.sizeOf_spec]
    omega

/-- Values are the same exactly if they become one when they are arranged. -/
theorem same_iff {j j' : Json} : Same j j' ↔ j.arranged = j'.arranged :=
  ⟨Same.arranged_eq, Same.of_arranged_eq j j'⟩

mutual
theorem arranged_of_ordered : ∀ {j : Json}, j.Ordered → j.arranged = j
  | .null, _ | .bool _, _ | .int _, _ | .double _, _ | .string _, _ => rfl
  | .array items, h => by rw [arranged, arrangedItems_of_ordered h]
  | .object fields, h => by rw [arranged, arrangedFields_of_ordered h.2, ofFields_of_ascending h.1]

theorem arrangedItems_of_ordered : ∀ {items : List Json}, OrderedItems items → arrangedItems items = items
  | [], _ => rfl
  | _ :: _, h => by rw [arrangedItems, arranged_of_ordered h.1, arrangedItems_of_ordered h.2]

theorem arrangedFields_of_ordered :
    ∀ {fields : List (String × Json)}, OrderedFields fields → arrangedFields fields = fields
  | [], _ => rfl
  | _ :: _, h => by rw [arrangedFields, arranged_of_ordered h.1, arrangedFields_of_ordered h.2]
end

end Json

/-! ## Bodies -/

namespace Body

/-- Both are the same text, or the same JSON value. -/
inductive Same : Body → Body → Prop
  | text (s : String) : Same (.text s) (.text s)
  | json {j j' : Json} (h : Json.Same j j') : Same (.json j) (.json j')

/-- The body with the members of JSON objects in key order. -/
def arranged : Body → Body
  | .text s => .text s
  | .json j => .json j.arranged

/-- A JSON value in the body lists the members of objects in key order. -/
def Ordered : Body → Prop
  | .text _ => True
  | .json j => j.Ordered

theorem Same.arranged_eq {b b' : Body} (h : Same b b') : b.arranged = b'.arranged := by
  cases h with
  | text s => rfl
  | json h => rw [arranged, arranged, h.arranged_eq]

theorem map_arranged_of_same {b b' : Option Body} (h : Option.Rel Same b b') :
    b.map arranged = b'.map arranged := by
  cases h with
  | none => rfl
  | some h => rw [Option.map_some, Option.map_some, h.arranged_eq]

theorem arranged_of_ordered {b : Body} (h : b.Ordered) : b.arranged = b := by
  cases b with
  | text s => rfl
  | json j => rw [arranged, Json.arranged_of_ordered h]

end Body

/-! ## Options as they are given -/

/-- Call options as they are put together: the entries of the maps and the members of JSON objects in the order
in which they are inserted, repetitions included. -/
structure Listing where
  query : List (String × String)
  headers : List (String × String)
  body : Option Body
  timeout : Option Nat
  forceRefresh : Bool

namespace Listing

def options (l : Listing) : CallOptions :=
  ⟨Dict.ofList l.query, Dict.ofList l.headers, l.body.map Body.arranged, l.timeout, l.forceRefresh⟩

/-- The options part by part. -/
def ofOptions (options : CallOptions) : Listing :=
  ⟨options.query.entries, options.headers.entries, options.body, options.timeout, options.forceRefresh⟩

theorem options_ofOptions {o : CallOptions} (h : ∀ b ∈ o.body, b.Ordered) : (ofOptions o).options = o := by
  have hbody : o.body.map Body.arranged = o.body := by
    cases hb : o.body with
    | none => rfl
    | some b => rw [Option.map_some, Body.arranged_of_ordered (h b hb)]
  rw [options, ofOptions, Dict.ofList_entries, Dict.ofList_entries, hbody]

/-- The same is given by both but for the limit of time and for whether the cache is asked: the maps of the
query are equal, those of the headers, which have each name in one spelling only, are equal if case is ignored,
and the bodies are the same. -/
structure Same (l l' : Listing) : Prop where
  query : ∀ name, l.options.query.get? name = l'.options.query.get? name
  spelling : OneSpelling l.options.headers
  spelling' : OneSpelling l'.options.headers
  headers : ∀ name, spelled? l.options.headers name = spelled? l'.options.headers name
  body : Option.Rel Body.Same l.body l'.body

end Listing

/-! ## Keys -/

namespace KeyStrategy

variable {o o' : CallOptions}

theorem headerPairs_perm (h : OneSpelling o.headers) {listed : List (String × String)}
    (hperm : listed.Perm o.headers.entries) : Dict.ofList (lowered listed) = headerPairs o :=
  withHeaders_perm Dict.empty h hperm

/-- Under a name in lower case stands the value of the header in whatever spelling, and under others nothing. -/
theorem get?_headerPairs (h : OneSpelling o.headers) (name : String) :
    (headerPairs o).get? name = if Text.lower name = name then spelled? o.headers name else none := by
  by_cases hname : Text.lower name = name
  · have hget := get?_withHeaders Dict.empty h name
    rw [hname, Dict.get?_empty, Option.or_none] at hget
    rw [if_pos hname]
    exact hget
  · rw [if_neg hname]
    by_contra hsome
    obtain ⟨value, hvalue⟩ := Option.ne_none_iff_exists'.1 hsome
    have hmem := Dict.mem_of_mem_ofList (Dict.get?_eq_some_iff.1 hvalue)
    obtain ⟨header, -, heq⟩ := List.mem_map.1 hmem
    obtain rfl : Text.lower header.1 = name := congrArg Prod.fst heq
    exact hname (Text.lower_lower header.1)

theorem headerPairs_congr (h : OneSpelling o.headers) (h' : OneSpelling o'.headers)
    (hsame : ∀ name, spelled? o.headers name = spelled? o'.headers name) : headerPairs o = headerPairs o' :=
  Dict.ext_get? fun name => by rw [get?_headerPairs h, get?_headerPairs h', hsame]

/-- Headers are left out of a key only if there are none. -/
theorem headerPairs_eq_empty_iff : headerPairs o = ∅ ↔ o.headers = ∅ := by
  rw [headerPairs, Dict.ofList_eq_empty_iff, List.map_eq_nil_iff, ← List.isEmpty_iff]
  exact Dict.isEmpty_iff

theorem fingerprint_congr (hquery : o.query = o'.query) (hheaders : headerPairs o = headerPairs o')
    (hbody : o.body.map bodyText = o'.body.map bodyText) : fingerprint o = fingerprint o' := by
  have hnone : o.headers.isEmpty = o'.headers.isEmpty := by
    rw [Bool.eq_iff_iff, Dict.isEmpty_iff, Dict.isEmpty_iff, ← headerPairs_eq_empty_iff, hheaders,
      headerPairs_eq_empty_iff]
  have htext : (o.body.map fun body => (bodyText body).toList) =
      o'.body.map fun body => (bodyText body).toList := by
    have hmap := congrArg (Option.map String.toList) hbody
    rwa [Option.map_map, Option.map_map] at hmap
  rw [← String.toList_inj, toList_fingerprint, toList_fingerprint]
  unfold sections
  rw [hquery, hnone, hheaders, htext]

theorem fingerprint_eq_empty_iff : fingerprint o = "" ↔ o.query = ∅ ∧ o.headers = ∅ ∧ o.body = none := by
  rw [← String.toList_inj, toList_fingerprint, ← Dict.isEmpty_iff, ← Dict.isEmpty_iff]
  unfold sections
  cases o.query.isEmpty <;> cases o.headers.isEmpty <;> cases o.body <;> simp [chain]

theorem key_congr_of_same {l l' : Listing} (h : l.Same l') (id : String) :
    key .request id l.options = key .request id l'.options := by
  have hbody : l.options.body = l'.options.body := Body.map_arranged_of_same h.body
  have hheaders := headerPairs_congr h.spelling h.spelling' h.headers
  simp only [key, fingerprint_congr (Dict.ext_get? h.query) hheaders (congrArg _ hbody)]

/-- The key of a call does not depend on how its options are put together: in which order the entries of the
two maps and the members of JSON objects are inserted, in which letter case the names of headers are, nor on the
limit of time and whether the cache is asked. All options can be put together in this way, and in whatever order
their maps are gone through, the pairs come to stand in the key in one order. The key is the bare id exactly if
there are neither parameters nor headers nor a body, and the id, if it holds no separator, is what stands in the
key before the first one. Numbers are the same if they are written alike, so that the two zeros differ. -/
theorem key_of_listing (id : String) :
    (∀ l l' : Listing, l.Same l' → key .request id l.options = key .request id l'.options) ∧
      (∀ o : CallOptions, (∀ b ∈ o.body, b.Ordered) → (Listing.ofOptions o).options = o) ∧
      (∀ o : CallOptions, OneSpelling o.headers → ∀ query headers, query.Perm o.query.entries →
        headers.Perm o.headers.entries →
          Dict.ofList query = o.query ∧ Dict.ofList (lowered headers) = headerPairs o) ∧
      (∀ o : CallOptions, key .request id o = id ↔ o.query = ∅ ∧ o.headers = ∅ ∧ o.body = none) ∧
      ('#' ∉ id.toList → ∀ o : CallOptions,
        String.ofList ((key .request id o).toList.takeWhile (· ≠ '#')) = id) := by
  refine ⟨fun l l' h => key_congr_of_same h id, fun o => Listing.options_ofOptions,
    fun o hone query headers hquery hheaders => ⟨?_, headerPairs_perm hone hheaders⟩,
    fun o => key_eq_id_iff.trans fingerprint_eq_empty_iff, fun hid o => Cache.owner_key .request o hid⟩
  have hnodup : (query.map (·.1)).Nodup := (hquery.map (·.1)).nodup_iff.2 o.query.ascending.nodup
  exact (Dict.empty.insertMany_perm hnodup hquery).trans (Dict.ofList_entries o.query)

/-- Everything is given in another order, and the header in another spelling. -/
theorem key_of_listing_users :
    let l : Listing :=
      ⟨[("b", "2"), ("a", "1")], [("X-Tenant", "acme")],
        some (.json (.object [("q", .object [("x", .int 1), ("y", .null)]), ("n", .int 2)])), none, false⟩
    let l' : Listing :=
      ⟨[("a", "1"), ("b", "2")], [("x-tenant", "acme")],
        some (.json (.object [("n", .int 2), ("q", .object [("y", .null), ("x", .int 1)])])), some 5, true⟩
    let text := "users#q:a=1&b=2|h:x-tenant=acme|b:\x7b\"n\":2,\"q\":\x7b\"x\":1,\"y\":null\x7d\x7d"
    l.Same l' ∧ key .request "users" l.options = text ∧ key .request "users" l'.options = text ∧
      String.ofList (text.toList.takeWhile (· ≠ '#')) = "users" := by
  intro l l' text
  have hquery : l.options.query = l'.options.query := by decide
  have hname : Text.lower "X-Tenant" = Text.lower "x-tenant" := by decide
  have hspelled : ∀ spelling name : String,
      spelled? ⟨[(spelling, "acme")], List.pairwise_singleton ..⟩ name =
        if Text.lower spelling = Text.lower name then some "acme" else none := by
    intro spelling name
    by_cases h : Text.lower spelling = Text.lower name <;> simp [spelled?, Text.sameIgnoringCase, h]
  have hsame : l.Same l' := by
    refine ⟨fun name => by rw [hquery], by decide, by decide, fun name => ?_, .some (.json ?_)⟩
    · exact (hspelled "X-Tenant" name).trans ((hspelled "x-tenant" name).trans (by rw [hname])).symm
    · exact Json.same_iff.2 rfl
  have hkey : key .request "users" l'.options = text := by decide +kernel
  obtain ⟨hlisting, -, -, -, hid⟩ := key_of_listing "users"
  refine ⟨hsame, (hlisting l l' hsame).trans hkey, hkey, ?_⟩
  rw [← hkey]
  exact hid (by decide) l'.options

end KeyStrategy

end Egress
