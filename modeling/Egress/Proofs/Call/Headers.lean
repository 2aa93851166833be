import Egress.Proofs.Dict
import Egress.Proofs.Errand
import Egress.Transport.Scripted

/-!
# Which headers a call carries

Four layers are laid over one another: the content type, the headers of the endpoint, those of the call, and
the one of the authentication scheme. Names are compared without regard to case, while each map is keyed by
the spelling, so that a map decides on a name only if it has it in one spelling (`OneSpelling`).

* `get?_withHeaders`: a map's value for a name, in whatever spelling it is given, goes over what was there.
* `withHeaders_perm`: the order in which a map is listed makes no difference.
* `Auth.header?_eq_ok_iff`: the one header that a scheme sets, if it sets any (`Auth.Sets`).
* `carried_of_run`: from this the headers of every call that an errand sends (`CarriedHeaders`).
-/

set_option autoImplicit false

namespace Egress

/-! ## Names in lower case -/

namespace Text

theorem toLower_toLower (c : Char) : c.toLower.toLower = c.toLower := by
  by_cases h : c.val ≥ 'A'.val ∧ c.val ≤ 'Z'.val
  · have hval : c.toLower.val = c.val + ('a'.val - 'A'.val) := congrArg Char.val (dif_pos h)
    have hlow : ¬(c.toLower.val ≥ 'A'.val ∧ c.toLower.val ≤ 'Z'.val) := by
      rw [hval]
      have hA : 'A'.val.toNat = 65 := rfl
      have hZ : 'Z'.val.toNat = 90 := rfl
      have hshift : ('a'.val - 'A'.val).toNat = 32 := rfl
      simp only [ge_iff_le, UInt32.le_iff_toNat_le, UInt32.toNat_add, hA, hZ, hshift] at h ⊢
      omega
    exact dif_neg hlow
  · have hsame : c.toLower = c := dif_neg h
    rw [hsame, hsame]

@[simp] theorem lower_lower (s : String) : lower (lower s) = lower s := by
  simp only [lower, String.toList_ofList, List.map_map]
  congr 1
  exact List.map_congr_left fun c _ => toLower_toLower c

theorem sameIgnoringCase_iff {a b : String} : sameIgnoringCase a b = true ↔ lower a = lower b := beq_iff_eq

end Text

/-! ## One map of headers -/

/-- The headers under their names in lower case, in the same order. -/
def lowered (listed : List (String × String)) : List (String × String) :=
  listed.map fun h => (Text.lower h.1, h.2)

/-- No name is there in two spellings. -/
def OneSpelling (given : Dict String) : Prop :=
  ∀ a ∈ given.entries, ∀ b ∈ given.entries, Text.lower a.1 = Text.lower b.1 → a = b

instance (given : Dict String) : Decidable (OneSpelling given) :=
  inferInstanceAs (Decidable (∀ a ∈ given.entries, ∀ b ∈ given.entries, _ → _))

/-- The value that the headers have for a name, in whatever spelling. -/
def spelled? (given : Dict String) (name : String) : Option String :=
  (given.entries.find? fun h => Text.sameIgnoringCase h.1 name).map (·.2)

theorem get?_lowered (listed : List (String × String)) (name : String) :
    Fields.get? (Text.lower name) (lowered listed) =
      (listed.find? fun h => Text.sameIgnoringCase h.1 name).map (·.2) := by
  induction listed with
  | nil => rfl
  | cons h rest ih =>
    rw [lowered, List.map_cons, Fields.get?_cons, List.find?_cons]
    by_cases hname : Text.lower h.1 = Text.lower name
    · rw [if_pos hname, Text.sameIgnoringCase_iff.2 hname]
      rfl
    · rw [if_neg hname, Bool.eq_false_iff.2 fun hsame => hname (Text.sameIgnoringCase_iff.1 hsame)]
      exact ih

section OneMap

variable {given : Dict String}

theorem OneSpelling.nodup_lowered (h : OneSpelling given) :
    ((lowered given.entries).map (·.1)).Nodup := by
  rw [lowered, List.map_map, List.Nodup, List.pairwise_map]
  refine given.ascending.imp_of_mem fun {a b} ha hb hlt heq => ?_
  obtain rfl := h a ha b hb heq
  exact String.lt_irrefl _ hlt

theorem get?_withHeaders (headers : Dict String) (h : OneSpelling given) (name : String) :
    (withHeaders headers given).get? (Text.lower name) =
      (spelled? given name).or (headers.get? (Text.lower name)) := by
  rw [withHeaders, ← lowered, Dict.get?_insertMany_of_nodup _ h.nodup_lowered, get?_lowered, spelled?]

/-- Headers that are listed in another order. -/
theorem withHeaders_perm (headers : Dict String) (h : OneSpelling given) {listed : List (String × String)}
    (hperm : listed.Perm given.entries) : headers.insertMany (lowered listed) = withHeaders headers given :=
  (headers.insertMany_perm h.nodup_lowered (hperm.symm.map _)).symm

end OneMap

/-- All names are in lower case. -/
def NamesLower (headers : Dict String) : Prop := ∀ h ∈ headers.entries, Text.lower h.1 = h.1

theorem NamesLower.insert {headers : Dict String} (h : NamesLower headers) {name : String}
    (hname : Text.lower name = name) (value : String) : NamesLower (headers.insert name value) := by
  intro own hown
  rcases Fields.mem_insert hown with rfl | hown
  · exact hname
  · exact h own hown

theorem NamesLower.withHeaders {headers : Dict String} (h : NamesLower headers) (given : Dict String) :
    NamesLower (withHeaders headers given) := by
  intro own hown
  rcases Dict.mem_of_mem_insertMany hown with hown | hown
  · obtain ⟨header, -, rfl⟩ := List.mem_map.1 hown
    exact Text.lower_lower header.1
  · exact h own hown

/-! ## The layers below the authentication scheme -/

/-- The headers of the endpoint and of the call over the content type, each map in the order in which it is
listed. -/
def listedHeaders (endpoint call : List (String × String)) : Dict String :=
  (Dict.empty.insert "content-type" defaultContentType).insertMany (lowered (endpoint ++ call))

namespace Endpoint

variable {e : Endpoint} {options : CallOptions}

theorem lower_mergedHeaders (e : Endpoint) (options : CallOptions) : NamesLower (e.mergedHeaders options) := by
  have hdefault : NamesLower (Dict.empty.insert "content-type" defaultContentType) :=
    NamesLower.insert (fun _ h => by cases h) (by decide) _
  exact (hdefault.withHeaders _).withHeaders _

theorem get?_mergedHeaders (hendpoint : OneSpelling e.headers) (hcall : OneSpelling options.headers)
    (name : String) :
    (e.mergedHeaders options).get? (Text.lower name) =
      (spelled? options.headers name).or ((spelled? e.headers name).or
        (if Text.lower name = "content-type" then some "application/json" else none)) := by
  rw [mergedHeaders, get?_withHeaders _ hcall, get?_withHeaders _ hendpoint, Dict.get?_insert,
    Dict.get?_empty, defaultContentType]
  simp only [eq_comm]

theorem listedHeaders_perm (hendpoint : OneSpelling e.headers) (hcall : OneSpelling options.headers)
    {inner outer : List (String × String)} (hinner : inner.Perm e.headers.entries)
    (houter : outer.Perm options.headers.entries) : listedHeaders inner outer = e.mergedHeaders options := by
  have happend : listedHeaders inner outer =
      ((Dict.empty.insert "content-type" defaultContentType).insertMany (lowered inner)).insertMany
        (lowered outer) := by
    simp only [listedHeaders, lowered, List.map_append, Dict.insertMany, List.foldl_append]
  rw [happend, withHeaders_perm _ hendpoint hinner, withHeaders_perm _ hcall houter, mergedHeaders]

end Endpoint

/-! ## The authentication scheme -/

/-- The header that a scheme sets for the endpoint `id`, if it sets one. -/
inductive Auth.Sets (tokens : Tokens) (id : String) : Auth → Option (String × String) → Prop
  | bearer {token : String} (h : token ≠ "") :
    Sets tokens id (.bearer (some token)) (some ("authorization", "Bearer " ++ token))
  | basic (username password : String) :
    Sets tokens id (.basic username password)
      (some ("authorization", "Basic " ++ basicCredentials username password))
  | oauth2 {client : OAuthClient} {refreshToken : Option String} {expiresAt : Option Timestamp}
      {token : String} (h : tokens.get? id = some token) :
    Sets tokens id (.oauth2 client refreshToken expiresAt) (some ("authorization", "Bearer " ++ token))
  | apiKey (key header : String) : Sets tokens id (.apiKey key header) (some (Text.lower header, key))
  | none : Sets tokens id .none Option.none
  | tokenless {token : Option String} (h : token.getD "" = "") : Sets tokens id (.bearer token) Option.none

section Scheme

variable {tokens : Tokens} {id : String} {auth : Auth} {own : Option (String × String)}

namespace Auth

theorem Sets.of_header? (h : auth.header? tokens id = .ok own) : Sets tokens id auth own := by
  cases auth with
  | none =>
    cases h
    exact .none
  | bearer token =>
    by_cases hempty : token.getD "" = ""
    · have hdropped : token.filter (!·.isEmpty) = Option.none := by
        cases token <;> simp_all [Option.filter]
      rw [header?, hdropped] at h
      cases h
      exact .tokenless hempty
    · cases token with
      | none => exact absurd rfl hempty
      | some token =>
        have hkept : (some token).filter (!·.isEmpty) = some token := by
          simpa [Option.filter] using hempty
        rw [header?, hkept] at h
        cases h
        exact .bearer hempty
  | apiKey key header =>
    cases h
    exact .apiKey key header
  | basic username password =>
    cases h
    exact .basic username password
  | oauth2 client refreshToken expiresAt =>
    cases htoken : tokens.get? id with
    | none => simp [header?, htoken] at h
    | some token =>
      simp only [header?, htoken] at h
      cases h
      exact .oauth2 htoken

theorem Sets.header?_eq (h : Sets tokens id auth own) : auth.header? tokens id = .ok own := by
  cases h with
  | bearer h => simp [header?, Option.filter, h]
  | oauth2 h => simp [header?, h]
  | @tokenless token h => cases token <;> simp_all [header?, Option.filter]
  | basic | apiKey | none => rfl

/-- Exactly one header, or none, is what a scheme sets. -/
theorem header?_eq_ok_iff : auth.header? tokens id = .ok own ↔ Sets tokens id auth own :=
  ⟨Sets.of_header?, Sets.header?_eq⟩

theorem Sets.lower {header : String × String} (h : Sets tokens id auth (some header)) :
    Text.lower header.1 = header.1 := by
  cases h with
  | apiKey key name => exact Text.lower_lower name
  | bearer | basic | oauth2 => exact show Text.lower "authorization" = "authorization" by decide

end Auth

end Scheme

/-! ## The headers on the wire -/

/-- The headers of a call to an endpoint: names in lower case, each once; under each name, in whatever
spelling it is asked for, the value of the authentication scheme, else of the call, else of the endpoint, else
the content type if that is the name; and the same ones in whatever order the two maps are listed. -/
structure CarriedHeaders (tokens : Tokens) (e : Endpoint) (options : CallOptions) (headers : Dict String) :
    Prop where
  lower : ∀ name ∈ headers.keys, Text.lower name = name
  unique : headers.keys.Nodup
  value : ∃ own, Auth.Sets tokens e.id e.auth own ∧ ∀ name,
    headers.get? (Text.lower name) =
      ((own.filter (·.1 = Text.lower name)).map (·.2)).or
        ((spelled? options.headers name).or ((spelled? e.headers name).or
          (if Text.lower name = "content-type" then some "application/json" else none)))
  order : ∀ inner outer, inner.Perm e.headers.entries → outer.Perm options.headers.entries →
    e.auth.apply tokens e.id (listedHeaders inner outer) = .ok headers

theorem Call.carried_of_prepare {tokens : Tokens} {e : Endpoint} {options : CallOptions}
    (hendpoint : OneSpelling e.headers) (hcall : OneSpelling options.headers) {call : Call}
    (h : Call.prepare tokens e options = .ok call) : CarriedHeaders tokens e options call.headers := by
  obtain ⟨url, headers, -, happly, rfl⟩ := prepare_eq_ok_iff.1 h
  obtain ⟨own, hheader, rfl⟩ := Auth.apply_eq_ok_iff.1 happly
  have hsets := Auth.header?_eq_ok_iff.1 hheader
  have hlower : NamesLower (own.elim (e.mergedHeaders options)
      fun h => (e.mergedHeaders options).insert h.1 h.2) := by
    cases own with
    | none => exact e.lower_mergedHeaders options
    | some header => exact (e.lower_mergedHeaders options).insert hsets.lower header.2
  refine ⟨fun name hname => ?_, Fields.Ascending.nodup (Dict.ascending _), ⟨own, hsets, fun name => ?_⟩,
    fun inner outer hinner houter => ?_⟩
  · obtain ⟨header, hheader, rfl⟩ := List.mem_map.1 hname
    exact hlower header hheader
  · rw [← Endpoint.get?_mergedHeaders hendpoint hcall]
    cases own with
    | none => rfl
    | some header =>
      rw [Option.elim_some, Dict.get?_insert]
      by_cases hname : header.1 = Text.lower name <;> simp [Option.filter, hname]
  · rw [Endpoint.listedHeaders_perm hendpoint hcall hinner houter]
    exact happly

/-- Every call that an errand sends, in whichever attempt, carries these headers. -/
theorem Errand.carried_of_run {ω : Type} (e : Errand) (transport : Transport ω) (tokens : Tokens)
    (hendpoint : OneSpelling e.endpoint.headers) (hcall : OneSpelling e.options.headers)
    {fuel now : Nat} {wire : Wire ω} {outcome : Schedule.Outcome (Wire ω) Stage (Except Failure Envelope)}
    (h : e.run transport tokens fuel now wire = some outcome) :
    ∃ new, outcome.shared.sent = new ++ wire.sent ∧
      ∀ sent ∈ new, CarriedHeaders tokens e.endpoint e.options sent.call.headers := by
  obtain ⟨new, hnew, hprepared⟩ := e.sends_run transport tokens h
  exact ⟨new, hnew, fun sent hsent => Call.carried_of_prepare hendpoint hcall (hprepared sent hsent)⟩

/-- An API key under a name that the endpoint and the call use too, each in its own spelling. -/
def Errand.keyed : Errand where
  endpoint :=
    { Endpoint.plain "e" "E" "http://h/" with
      headers := Dict.ofList [("X-Key", "endpoint"), ("Accept", "text/plain"), ("Content-Type", "text/xml")]
      auth := .apiKey "secret" "X-KEY" }
  options := { CallOptions.plain with headers := Dict.ofList [("x-key", "call"), ("ACCEPT", "*/*")] }
  policy := none

theorem Errand.carried_of_run_keyed :
    ∃ outcome sent, keyed.run .scripted none 3 0 ⟨Script.empty, []⟩ = some outcome ∧
      outcome.shared.sent = [sent] ∧
      sent.call.headers.get? "x-key" = some "secret" ∧ sent.call.headers.get? "accept" = some "*/*" ∧
      sent.call.headers.get? "content-type" = some "text/xml" ∧
      sent.call.headers.get? "user-agent" = none := by
  have hone : (keyed.run .scripted none 3 0 ⟨Script.empty, []⟩).map (·.shared.sent.length) = some 1 := by rfl
  obtain ⟨outcome, hrun, hlength⟩ := Option.map_eq_some_iff.1 hone
  obtain ⟨sent, hsent⟩ := List.length_eq_one_iff.1 hlength
  obtain ⟨new, hnew, hcarried⟩ := keyed.carried_of_run .scripted none (by decide) (by decide) hrun
  obtain rfl : [sent] = new := by rw [← hsent, hnew, List.append_nil]
  obtain ⟨-, -, ⟨own, hsets, hvalue⟩, -⟩ := hcarried sent (List.mem_singleton_self sent)
  cases hsets
  exact ⟨outcome, sent, hrun, hsent, (hvalue "X-Key").trans (by decide), (hvalue "Accept").trans (by decide),
    (hvalue "Content-Type").trans (by decide), (hvalue "User-Agent").trans (by decide)⟩

end Egress
