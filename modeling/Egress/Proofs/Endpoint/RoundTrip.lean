import Egress.Call.Basic
import Egress.Endpoint.Decode
import Egress.Endpoint.Encode
import Egress.Proofs.Call.Body
import Egress.Proofs.Json.Records
import Egress.Proofs.Timestamp

/-!
# Endpoints are read as they were written

* `Fits` says of a record that its numbers fit the widths they are read with, `Portable` of an endpoint
  that its body and its dates are such as a text keeps.
* Each record has two lemmas: `decode_toJson`, it is decoded to what it was, and `readable_toJson`, its text
  can be read. `Auth.decode_ofFields` does for the name of a scheme what the fields do for a record.
* `Endpoint.reread`: a body that is a JSON string is taken for a text; everything else is as it was.
* `Endpoint.prepare_reread`: the calls are the same.
-/

set_option autoImplicit false

namespace Egress

open Json

/-! ## Members that may be left out -/

namespace Json

variable {α : Type}

@[simp] theorem get?_optionalField (key : String) (f : α → Json) (o : Option α) (k : String) :
    Fields.get? k (optionalField key f o) = if key = k then o.map f else none := by
  cases o <;> simp [optionalField, Fields.get?]

theorem keys_optionalField (key : String) (f : α → Json) (o : Option α) :
    ((optionalField key f o).map (·.1)).Sublist [key] := by
  cases o <;> simp [optionalField]

@[simp] theorem get?_textsField (key : String) (d : Dict String) (k : String) :
    Fields.get? k (textsField key d) =
      if key = k then (if d.isEmpty then none else some (ofTexts d)) else none := by
  unfold textsField
  split <;> simp [Fields.get?]

theorem keys_textsField (key : String) (d : Dict String) :
    ((textsField key d).map (·.1)).Sublist [key] := by
  unfold textsField
  split <;> simp

theorem forall_mem_optionalField {key : String} {f : α → Json} {o : Option α}
    {P : String × Json → Prop} : (∀ m ∈ optionalField key f o, P m) ↔ ∀ a ∈ o, P (key, f a) := by
  cases o <;> simp [optionalField]

theorem readable_texts (d : Dict String) : (ofTexts d).Readable 1 := by
  refine .object fun m hm => ?_
  obtain ⟨e, -, rfl⟩ := List.mem_map.1 hm
  exact .string e.2

theorem readable_of_mem_textsField {n : Nat} {key : String} {d : Dict String} :
    ∀ m ∈ textsField key d, m.2.Readable (n + 1) := by
  unfold textsField
  split
  · exact nofun
  · simpa using (readable_texts d).mono (by omega)

theorem decodeDict_texts (d : Dict String) :
    decodeDict decodeString .json (Tree.ofJson (ofTexts d)) = .ok d :=
  decodeDict_entries d fun _ => rfl

/-- A dictionary whose member is left out when it is empty. -/
theorem Filled.textsMember {ρ : Type} {members : List (String × Json)} {seen : List String}
    {fields : List (RecordField ρ)} {f : RecordField ρ} {set : Dict String → ρ → ρ} {r r₂ : ρ}
    (texts : Dict String) (hf : f.read = fun d t r => do return set (← decodeDict decodeString d t) r)
    (hrequired : f.required = false)
    (hget : Fields.get? f.name members = if texts.isEmpty then none else some (ofTexts texts))
    (hdefault : set ∅ r = r) (h : Filled .json members seen fields (set texts r) r₂) :
    Filled .json members seen (f :: fields) r r₂ := by
  refine .memberOrDefault hf hrequired hget ?_ ?_ h
  · intro j hj
    split at hj
    · cases hj
    · cases hj
      exact decodeDict_texts texts
  · intro hnone
    have hempty : texts.isEmpty = true := by
      by_contra hne
      simp [hne] at hnone
    have htexts : texts = ∅ := Dict.ext_get? fun k => by
      rw [Dict.get?, List.isEmpty_iff.1 hempty]
      rfl
    rw [htexts, hdefault]

theorem ofJson_ne_null {j : Json} (h : j ≠ .null) : Tree.ofJson j ≠ .null := by
  cases j
  case null => exact absurd rfl h
  all_goals exact nofun

end Json

/-! ## Policies -/

namespace RateLimit

/-- The numbers fit the widths that a record keeps them in. -/
structure Fits (r : RateLimit) : Prop where
  requests : r.requests < 2 ^ 32
  window : r.window < 2 ^ 64
  throttleDelay : ∀ delay ∈ r.throttleDelay, delay < 2 ^ 64

theorem decode_toJson {r : RateLimit} (h : r.Fits) : decode .json (Tree.ofJson r.toJson) = .ok r := by
  refine readRecord_ofFields ["requests", "window", "queue", "throttleDelay"] (by simp) ?_ (by decide)
    (by decide) ?_
  · rw [List.map_append]
    exact (List.Sublist.refl _).append (keys_optionalField ..)
  · refine .member rfl rfl (decodeNat_nat h.requests _) ?_
    refine .member rfl rfl (decodeNat_nat h.window _) ?_
    refine .member rfl rfl (decodeBool_bool r.queue _) ?_
    refine .optionalMember .nat r.throttleDelay rfl rfl (get?_optionalField ..) ?_ rfl (.nil _)
    exact fun delay hd => decodeOption_of_ok nofun (decodeNat_nat (h.throttleDelay delay hd) _)

theorem readable_toJson {r : RateLimit} (h : r.Fits) : r.toJson.Readable 1 := by
  refine .ofFields ?_
  simp only [List.forall_mem_append, List.forall_mem_cons, forall_mem_optionalField]
  exact ⟨⟨.nat h.requests (by decide), .nat h.window (by decide), .bool _, nofun⟩,
    fun delay hd => .nat (h.throttleDelay delay hd) (by decide)⟩

end RateLimit

namespace CachePolicy

structure Fits (c : CachePolicy) : Prop where
  ttl : c.ttl < 2 ^ 64

theorem decode_toJson {c : CachePolicy} (h : c.Fits) : decode .json (Tree.ofJson c.toJson) = .ok c := by
  refine readRecord_ofFields ["enabled", "ttl", "strategy"] (by simp) (List.Sublist.refl _) (by decide)
    (by decide) ?_
  refine .member rfl rfl (decodeBool_bool c.enabled _) ?_
  refine .member rfl rfl (decodeNat_nat h.ttl _) ?_
  refine .member rfl rfl (v := c.storage) ?_ (.nil _)
  cases c.storage <;> rfl

theorem readable_toJson {c : CachePolicy} (h : c.Fits) : c.toJson.Readable 1 := by
  refine .ofFields ?_
  simp only [List.forall_mem_cons]
  exact ⟨.bool _, .nat h.ttl (by decide), .string _, nofun⟩

end CachePolicy

namespace RetryPolicy

structure Fits (p : RetryPolicy) : Prop where
  maxAttempts : p.maxAttempts < 2 ^ 32
  baseDelay : p.baseDelay < 2 ^ 64
  maxDelay : ∀ delay ∈ p.maxDelay, delay < 2 ^ 64
  retryableStatuses : ∀ status ∈ p.retryableStatuses, status < 2 ^ 16

theorem decode_toJson {p : RetryPolicy} (h : p.Fits) : decode .json (Tree.ofJson p.toJson) = .ok p := by
  refine readRecord_ofFields ["maxAttempts", "backoffStrategy", "baseDelay", "retryableStatusCodes",
    "maxDelay"] (by simp) ?_ (by decide) (by decide) ?_
  · rw [List.map_append]
    exact (List.Sublist.refl _).append (keys_optionalField ..)
  · refine .member rfl rfl (decodeNat_nat h.maxAttempts _) ?_
    refine .member rfl rfl (v := p.backoff) (by cases p.backoff <;> rfl) ?_
    refine .member rfl rfl (decodeNat_nat h.baseDelay _) ?_
    refine .optionalMember .nat p.maxDelay rfl rfl (get?_optionalField ..) ?_ rfl ?_
    · exact fun delay hd => decodeOption_of_ok nofun (decodeNat_nat (h.maxDelay delay hd) _)
    · refine .member rfl rfl (decodeList_self fun status hs => ?_) (.nil _)
      exact decodeNat_nat (h.retryableStatuses status hs) _

theorem readable_toJson {p : RetryPolicy} (h : p.Fits) : p.toJson.Readable 2 := by
  have hstatuses : (Json.array (p.retryableStatuses.map .nat)).Readable 1 := by
    refine .array fun j hj => ?_
    obtain ⟨status, hstatus, rfl⟩ := List.mem_map.1 hj
    exact .nat (h.retryableStatuses status hstatus) (by decide)
  refine .ofFields ?_
  simp only [List.forall_mem_append, List.forall_mem_cons, forall_mem_optionalField]
  exact ⟨⟨.nat h.maxAttempts (by decide), .string _, .nat h.baseDelay (by decide), hstatuses, nofun⟩,
    fun delay hd => .nat (h.maxDelay delay hd) (by decide)⟩

end RetryPolicy

/-! ## Authentication -/

namespace Auth

/-- The dates are such as a text keeps. -/
def Plain : Auth → Prop
  | .oauth2 _ _ expiresAt => ∀ t ∈ expiresAt, t.Plain
  | _ => True

theorem decodeBearer_ofFields (token : Option String) :
    decodeBearer .json (Tree.ofJson (Json.ofFields [("token", .ofOption .string token)])) =
      .ok token := by
  refine readRecord_ofFields ["token"] (by simp) (List.Sublist.refl _) (by decide) (by decide) ?_
  refine .member rfl rfl ?_ (.nil _)
  cases token <;> rfl

theorem decodeApiKey_ofFields (key header : String) :
    decodeApiKey .json (Tree.ofJson (Json.ofFields [("key", .string key), ("header", .string header)])) =
      .ok (key, header) := by
  refine readRecord_ofFields ["key", "header"] (by simp) (List.Sublist.refl _) (by decide) (by decide) ?_
  exact .member rfl rfl rfl (.member rfl rfl rfl (.nil _))

theorem decodeBasic_ofFields (username password : String) :
    decodeBasic .json (Tree.ofJson (Json.ofFields [("username", .string username),
      ("password", .string password)])) = .ok (username, password) := by
  refine readRecord_ofFields ["username", "password"] (by simp) (List.Sublist.refl _) (by decide)
    (by decide) ?_
  exact .member rfl rfl rfl (.member rfl rfl rfl (.nil _))

theorem decodeClient_ofFields (client : OAuthClient) :
    decodeClient .json (Tree.ofJson (Json.ofFields [("clientId", .ofOption .string client.clientId),
      ("tokenUrl", .ofOption .string client.tokenUrl),
      ("scopes", .array (client.scopes.map .string))])) = .ok client := by
  refine readRecord_ofFields ["clientId", "tokenUrl", "scopes"] (by simp) (List.Sublist.refl _)
    (by decide) (by decide) ?_
  refine .member rfl rfl (v := client.clientId) (by cases client.clientId <;> rfl) ?_
  refine .member rfl rfl (v := client.tokenUrl) (by cases client.tokenUrl <;> rfl) ?_
  exact .member rfl rfl (decodeList_self fun _ _ => rfl) (.nil _)

/-- The name of the scheme is taken out, the other members are kept. -/
theorem takeScheme_ofFields {name : String} {scheme : Scheme}
    (hname : Scheme.variants.find name = .ok scheme) {members : List (String × Json)}
    (hkeys : (members.map (·.1)).Nodup) (htype : Fields.get? "type" members = some (.string name)) :
    takeScheme Option.none (Tree.ofFields members) =
      .ok (scheme, Tree.ofFields (members.filter fun m => m.1 ≠ "type")) := by
  -- behind the name of the scheme every member is kept
  have taken : ∀ rest : List (String × Json), "type" ∉ rest.map (·.1) →
      takeScheme (some scheme) (Tree.ofFields rest) =
        .ok (scheme, Tree.ofFields (rest.filter fun m => m.1 ≠ "type")) := by
    intro rest hrest
    induction rest with
    | nil => rfl
    | cons m rest ih =>
      obtain ⟨key, j⟩ := m
      obtain ⟨v, hv, -⟩ := Tree.value?_ofJson j
      have hkey : key ≠ "type" := fun heq => hrest (heq ▸ List.mem_cons_self)
      have hrest' := ih fun hmem => hrest (List.mem_cons_of_mem _ hmem)
      rw [Tree.ofFields, takeScheme, if_neg hkey, decodeValue, hv, hrest']
      simp [hkey, Tree.ofFields]
      rfl
  induction members with
  | nil => cases htype
  | cons m rest ih =>
    obtain ⟨key, j⟩ := m
    obtain ⟨hnew, hrest⟩ := List.nodup_cons.1 hkeys
    by_cases hkey : key = "type"
    · subst hkey
      obtain rfl : j = .string name := by simpa [Fields.get?] using htype
      have hscheme : Scheme.decode .json (Tree.ofJson (.string name)) = .ok scheme := hname
      rw [Tree.ofFields, takeScheme, if_pos rfl, hscheme]
      rw [List.filter_cons_of_neg (by simp)]
      exact taken rest hnew
    · obtain ⟨v, hv, -⟩ := Tree.value?_ofJson j
      have htail := ih hrest (by simpa [Fields.get?, hkey] using htype)
      rw [Tree.ofFields, takeScheme, if_neg hkey, decodeValue, hv, htail]
      simp [hkey, Tree.ofFields]
      rfl

/-- A scheme is read by its name and its content. -/
theorem decode_ofFields {name : String} (scheme : Scheme) {auth : Auth}
    (hname : Scheme.variants.find name = .ok scheme) {members : List (String × Json)}
    (hkeys : ("type" :: members.map (·.1)).Nodup)
    (hcontent : decodeContent scheme (Tree.ofJson (Json.ofFields members)) = .ok auth) :
    decode .json (Tree.ofJson (Json.ofFields (("type", .string name) :: members))) = .ok auth := by
  obtain ⟨hnew, hnodup⟩ := List.nodup_cons.1 hkeys
  have hpairs : ((("type", Json.string name) :: members).map (·.1)).Nodup := hkeys
  have hget := Dict.get?_ofList hpairs
  -- without the name of the scheme its content is left
  have herase : (Dict.ofList (("type", Json.string name) :: members)).erase "type" =
      Dict.ofList members := by
    apply Dict.ext_get?
    intro k
    rw [Dict.get?_erase, hget, Dict.get?_ofList hnodup, Fields.get?]
    by_cases hk : "type" = k
    · subst hk
      have hnone : Fields.get? "type" members = Option.none :=
        Classical.byContradiction fun hne => hnew (Fields.get?_ne_none_iff.1 hne)
      rw [if_pos rfl, hnone]
    · rw [if_neg hk, if_neg hk]
  have hothers : (Dict.ofList (("type", Json.string name) :: members)).entries.filter
      (fun m => m.1 ≠ "type") = (Dict.ofList members).entries := congrArg Dict.entries herase
  have htake := takeScheme_ofFields hname (Dict.ascending _).nodup (hget "type")
  rw [hothers] at htake
  rw [ofFields_eq, Tree.ofJson] at hcontent ⊢
  rw [decode, htake]
  show (decodeContent scheme (.object (Tree.ofFields (Dict.ofList members).entries))).mapError kept = _
  rw [hcontent]
  rfl

theorem keys_content (j : Json) (refreshToken : Option String) (expiresAt : Option Timestamp) :
    (([("credentials", j)] ++ optionalField "refreshToken" .string refreshToken ++
      optionalField "expiresAt" (fun t => .string t.format) expiresAt).map (·.1)).Sublist
        ["credentials", "refreshToken", "expiresAt"] := by
  rw [List.map_append, List.map_append]
  exact ((List.Sublist.refl _).append (keys_optionalField ..)).append (keys_optionalField ..)

theorem decodeContent_oauth2 {client : OAuthClient} {j : Json}
    (hj : decodeClient .json (Tree.ofJson j) = .ok client) (refreshToken : Option String)
    {expiresAt : Option Timestamp} (h : ∀ t ∈ expiresAt, t.Plain) :
    decodeContent .oauth2 (Tree.ofJson (Json.ofFields ([("credentials", j)] ++
      optionalField "refreshToken" .string refreshToken ++
      optionalField "expiresAt" (fun t => .string t.format) expiresAt))) =
        .ok (.oauth2 client refreshToken expiresAt) := by
  rw [decodeContent, readRecord_ofFields (r := (client, refreshToken, expiresAt)) _ ?_
    (keys_content j refreshToken expiresAt) ?_ ?_ ?_]
  · rfl
  · simp
  · decide
  · decide
  · refine .member rfl rfl hj ?_
    refine .optionalMember .string refreshToken rfl rfl (by simp) (fun _ _ => rfl) rfl ?_
    refine .optionalMember (fun t => .string t.format) expiresAt rfl rfl (by simp) (fun t ht => ?_) rfl
      (.nil _)
    refine decodeOption_of_ok nofun ?_
    rw [Tree.ofJson, decodeTimestamp, Timestamp.parse_format (h t ht)]
    rfl

/-- A scheme whose content is a record of its credentials alone. -/
theorem decode_credentials {β : Type} {name record : String} {scheme : Scheme} {f : RecordField Auth}
    {start : Auth} {read : Decoder β} {set : β → Auth → Auth} {j : Json} {v : β}
    (hname : Scheme.variants.find name = .ok scheme)
    (hrecord : decodeContent scheme = readRecord record [f] start .json)
    (hfield : f.name = "credentials" ∧ f.aliases = [])
    (hf : f.read = fun d t r => do return set (← read d t) r)
    (hread : read .json (Tree.ofJson j) = .ok v) :
    decode .json (Tree.ofJson (Json.ofFields [("type", .string name), ("credentials", j)])) =
      .ok (set v start) := by
  refine decode_ofFields scheme hname (by simp) ?_
  rw [hrecord]
  refine readRecord_ofFields ["credentials"] (by simp) (List.Sublist.refl _) (by decide) ?_ ?_
  · simp [hfield]
  · exact .member hf (by simp [hfield]) hread (.nil _)

theorem decode_toJson {auth : Auth} (h : auth.Plain) :
    decode .json (Tree.ofJson auth.toJson) = .ok auth := by
  cases auth with
  | none => exact decode_ofFields .none rfl (by decide) rfl
  | bearer token =>
    exact decode_credentials (f := .optional "credentials" decodeBearer fun v _ => .bearer v) rfl rfl
      ⟨rfl, rfl⟩ rfl (decodeBearer_ofFields token)
  | apiKey key header =>
    exact decode_credentials (f := .needed "credentials" decodeApiKey fun v _ => .apiKey v.1 v.2) rfl rfl
      ⟨rfl, rfl⟩ rfl (decodeApiKey_ofFields key header)
  | basic username password =>
    exact decode_credentials (f := .needed "credentials" decodeBasic fun v _ => .basic v.1 v.2) rfl rfl
      ⟨rfl, rfl⟩ rfl (decodeBasic_ofFields username password)
  | oauth2 client refreshToken expiresAt =>
    have hkeys := (keys_content .null refreshToken expiresAt).cons_cons "type"
    exact decode_ofFields .oauth2 rfl (hkeys.nodup (by decide))
      (decodeContent_oauth2 (decodeClient_ofFields client) refreshToken h)

theorem readable_credentials {n : Nat} {name : String} {members : List (String × Json)}
    (h : ∀ m ∈ members, m.2.Readable n) :
    (Json.ofFields [("type", .string name), ("credentials", .ofFields members)]).Readable (n + 2) := by
  refine .ofFields ?_
  simp only [List.forall_mem_cons]
  exact ⟨.string name, .ofFields h, nofun⟩

theorem readable_toJson (auth : Auth) : auth.toJson.Readable 3 := by
  cases auth with
  | none =>
    refine .ofFields ?_
    simp only [List.forall_mem_cons]
    exact ⟨.string _, nofun⟩
  | bearer token =>
    refine readable_credentials ?_
    simp only [List.forall_mem_cons]
    exact ⟨.ofOption fun _ _ => .string _, nofun⟩
  | apiKey key header =>
    refine readable_credentials ?_
    simp only [List.forall_mem_cons]
    exact ⟨.string key, .string header, nofun⟩
  | basic username password =>
    refine readable_credentials ?_
    simp only [List.forall_mem_cons]
    exact ⟨.string username, .string password, nofun⟩
  | oauth2 client refreshToken expiresAt =>
    have hscopes : (Json.array (client.scopes.map .string)).Readable 1 := by
      refine .array fun j hj => ?_
      obtain ⟨scope, -, rfl⟩ := List.mem_map.1 hj
      exact .string scope
    refine .ofFields ?_
    simp only [List.forall_mem_append, List.forall_mem_cons, forall_mem_optionalField]
    refine ⟨⟨⟨.string _, .ofFields ?_, nofun⟩, fun _ _ => .string _⟩, fun _ _ => .string _⟩
    simp only [List.forall_mem_cons]
    exact ⟨.ofOption fun _ _ => .string _, .ofOption fun _ _ => .string _, hscopes, nofun⟩

end Auth

/-! ## Bodies -/

/-- The body as it is read back: a JSON string comes back as a text. -/
def Body.reread : Body → Body
  | .json (.string s) => .text s
  | b => b

theorem Body.encode_reread (b : Body) : b.reread.encode = b.encode := by
  cases b with
  | text s => rfl
  | json j => cases j <;> rfl

theorem Body.merged_none (base : Body) : merged (some base) none = some base := by
  unfold merged
  split
  · next heq => cases heq
  · rfl

theorem Body.laidOver_reread (base call : Body) :
    laidOver (some base.reread) call = laidOver (some base) call := by
  cases base with
  | text s => rfl
  | json j => cases j <;> rfl

/-- JSON that a text keeps as it is, no deeper than `n`. -/
def Body.Readable (n : Nat) : Body → Prop
  | .text _ => True
  | .json j => j.Ordered ∧ j.Readable n

theorem Body.decode_toJson {b : Body} {n : Nat} (h : b.Readable n) :
    Body.decode .json (Tree.ofJson b.toJson) = .ok b.reread := by
  cases b with
  | text s => rfl
  | json j =>
    obtain ⟨v, hv, heq⟩ := Tree.value?_ofJson j
    obtain rfl := heq h.1 h.2.whole
    cases v
    case string => rfl
    all_goals
      rw [Body.toJson, Body.decode]
      · rw [decodeValue, hv]
        rfl
      · simp [Tree.ofJson]

/-! ## Endpoints -/

namespace Endpoint

/-- The endpoint as it is read back. -/
def reread (e : Endpoint) : Endpoint := { e with body := e.body.map Body.reread }

theorem callBody_reread (e : Endpoint) (options : CallOptions) :
    (e.reread.callBody options).map Body.encode = (e.callBody options).map Body.encode := by
  have hmerged : (Body.merged e.reread.body options.body).map Body.encode =
      (Body.merged e.body options.body).map Body.encode := by
    show (Body.merged (e.body.map Body.reread) options.body).map Body.encode = _
    cases e.body with
    | none => rfl
    | some base =>
      cases options.body with
      | none =>
        rw [Option.map_some, Body.merged_none, Body.merged_none, Option.map_some, Option.map_some,
          Body.encode_reread]
      | some call => rw [Option.map_some, Body.merged_some, Body.merged_some, Body.laidOver_reread]
  have hfilter : ∀ o : Option Body, (o.filter fun _ => e.method.allowsBody).map Body.encode =
      (o.map Body.encode).filter fun _ => e.method.allowsBody := by
    intro o
    rw [Option.filter_map]
    rfl
  have hsame := hfilter (Body.merged e.reread.body options.body)
  rw [hmerged, ← hfilter] at hsame
  exact hsame

/-- What is sent to the endpoint is the same. -/
theorem prepare_reread (tokens : Tokens) (e : Endpoint) (options : CallOptions) :
    Call.prepare tokens e.reread options = Call.prepare tokens e options := by
  have hbody := e.callBody_reread options
  unfold Call.prepare
  rw [hbody]
  rfl

/-- The numbers fit the widths that a record keeps them in. -/
structure Fits (e : Endpoint) : Prop where
  timeout : e.timeout < 2 ^ 64
  retries : ∀ n ∈ e.retries, n < 2 ^ 32
  rateLimit : ∀ r ∈ e.rateLimit, r.Fits
  cache : ∀ c ∈ e.cache, c.Fits
  retryPolicy : ∀ p ∈ e.retryPolicy, p.Fits

/-- What a document keeps: a body that is not null and nests no deeper than 100, and dates in years of four
digits. -/
structure Portable (e : Endpoint) : Prop where
  body : ∀ b ∈ e.body, b.Readable 100 ∧ b.toJson ≠ .null
  auth : e.auth.Plain

theorem decode_toJson {e : Endpoint} (h : e.Fits) (hp : e.Portable) :
    decode .json (Tree.ofJson e.toJson) = .ok e.reread := by
  refine readRecord_ofFields ["id", "name", "url", "method", "timeout", "auth", "headers", "queryParams",
    "body", "retries", "rateLimit", "cache", "retryPolicy"] (by simp) ?_ (by decide) (by decide) ?_
  · simp only [List.map_append]
    exact (((((((List.Sublist.refl _).append (keys_textsField ..)).append (keys_textsField ..)).append
      (keys_optionalField ..)).append (keys_optionalField ..)).append (keys_optionalField ..)).append
      (keys_optionalField ..)).append (keys_optionalField ..)
  · have hname : decodeVariant Method.variants .json (Tree.ofJson (.string e.method.name)) =
        .ok e.method := by
      cases e.method <;> rfl
    refine .member rfl (by simp) (decodeString_string e.id _) ?_
    refine .member rfl (by simp) (decodeString_string e.name _) ?_
    refine .member rfl (by simp) (decodeString_string e.url _) ?_
    refine .member rfl (by simp) hname ?_
    dsimp only
    refine .textsMember e.headers rfl rfl (by simp) rfl ?_
    refine .textsMember e.queryParams rfl rfl (by simp) rfl ?_
    dsimp only
    refine .memberOrDefault (o := e.body.map Body.toJson) (v := e.body.map Body.reread) rfl rfl (by simp)
      ?_ ?_ ?_
    · intro j hj
      obtain ⟨b, hb, rfl⟩ := Option.map_eq_some_iff.1 hj
      obtain ⟨hreadable, hnull⟩ := hp.body b hb
      rw [hb]
      exact decodeOption_of_ok (ofJson_ne_null hnull) (Body.decode_toJson hreadable)
    · intro hnone
      rw [Option.map_eq_none_iff.1 hnone]
      rfl
    dsimp only
    refine .member rfl (by simp) (decodeNat_nat h.timeout _) ?_
    refine .optionalMember .nat e.retries rfl rfl (by simp) (fun n hn => ?_) rfl ?_
    · exact decodeOption_of_ok nofun (decodeNat_nat (h.retries n hn) _)
    dsimp only
    refine .member rfl (by simp) (Auth.decode_toJson hp.auth) ?_
    refine .optionalMember RateLimit.toJson e.rateLimit rfl rfl (by simp) (fun r hr => ?_) rfl ?_
    · exact decodeOption_of_ok nofun (RateLimit.decode_toJson (h.rateLimit r hr))
    dsimp only
    refine .optionalMember CachePolicy.toJson e.cache rfl rfl (by simp) (fun c hc => ?_) rfl ?_
    · exact decodeOption_of_ok nofun (CachePolicy.decode_toJson (h.cache c hc))
    refine .optionalMember RetryPolicy.toJson e.retryPolicy rfl rfl (by simp) (fun p hr => ?_) rfl
      (.nil _)
    exact decodeOption_of_ok nofun (RetryPolicy.decode_toJson (h.retryPolicy p hr))

theorem readable_toJson {e : Endpoint} (h : e.Fits) (hp : e.Portable) : e.toJson.Readable 101 := by
  have hbody : ∀ b ∈ e.body, b.toJson.Readable 100 := by
    intro b hb
    have := (hp.body b hb).1
    cases b with
    | text s => exact .string s
    | json j => exact this.2
  refine .ofFields ?_
  simp only [List.forall_mem_append, List.forall_mem_cons, forall_mem_optionalField]
  refine ⟨⟨⟨⟨⟨⟨⟨⟨.string _, .string _, .string _, .string _, .nat h.timeout (by decide), ?_, nofun⟩,
    readable_of_mem_textsField⟩, readable_of_mem_textsField⟩, hbody⟩,
    fun n hn => .nat (h.retries n hn) (by decide)⟩, fun r hr => ?_⟩, fun c hc => ?_⟩, fun p hr => ?_⟩
  · exact e.auth.readable_toJson.mono (by decide)
  · exact (RateLimit.readable_toJson (h.rateLimit r hr)).mono (by decide)
  · exact (CachePolicy.readable_toJson (h.cache c hc)).mono (by decide)
  · exact (RetryPolicy.readable_toJson (h.retryPolicy p hr)).mono (by decide)

end Endpoint

end Egress
