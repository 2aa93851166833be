import Egress.Proofs.Errand
import Egress.Proofs.Text.Utf8

/-!
# How a call ends

A call ends before it is sent, for its URL or for want of a token, or with the reply, or with its time
(`outcome_of_run`). Whether a response that is there in time is a success depends on its status and on nothing
else: whatever its headers and its body are, there is something to read it as (`reads_payload`).

A URL at a domain name that is not in ASCII is none (`Url.parseHost`), and a call to it ends for its URL.
-/

set_option autoImplicit false

namespace Egress

open Text

/-! ## The kind of content -/

theorem Text.contains_iff {text part : List Char} : contains text part = true ↔ part <:+: text := by
  induction text with
  | nil => simp [contains]
  | cons c rest ih =>
    rw [contains, Bool.or_eq_true, List.isPrefixOf_iff_prefix, ih, List.infix_cons_iff]

namespace Response

variable (r : Response)

/-- The content type that a response declares, in lower case. -/
def declaredType : List Char := (lower ((r.header? "content-type").getD "")).toList

/-- The declared content type is one of JSON. -/
def DeclaresJson : Prop :=
  "application/json".toList <:+: r.declaredType ∨ "+json".toList <:+: r.declaredType

/-- The declared content type is one of text. -/
def DeclaresText : Prop := "text/".toList <+: r.declaredType

theorem declaresJson_iff :
    (contains r.declaredType "application/json".toList || contains r.declaredType "+json".toList) = true ↔
      r.DeclaresJson := by
  rw [Bool.or_eq_true, contains_iff, contains_iff, DeclaresJson]

theorem declaresText_iff : "text/".toList.isPrefixOf r.declaredType = true ↔ r.DeclaresText :=
  List.isPrefixOf_iff_prefix

theorem contentKind_eq : r.contentKind =
    if (contains r.declaredType "application/json".toList || contains r.declaredType "+json".toList) = true
    then .json
    else if "text/".toList.isPrefixOf r.declaredType = true then .text else .binary := rfl

variable {r}

theorem contentKind_of_json (h : r.DeclaresJson) : r.contentKind = .json := by
  rw [contentKind_eq, if_pos (r.declaresJson_iff.2 h)]

theorem contentKind_of_text (h : ¬r.DeclaresJson) (htext : r.DeclaresText) : r.contentKind = .text := by
  rw [contentKind_eq, if_neg (h ∘ r.declaresJson_iff.1), if_pos (r.declaresText_iff.2 htext)]

theorem contentKind_of_binary (h : ¬r.DeclaresJson) (htext : ¬r.DeclaresText) : r.contentKind = .binary := by
  rw [contentKind_eq, if_neg (h ∘ r.declaresJson_iff.1), if_neg (htext ∘ r.declaresText_iff.1)]

end Response

/-! ## The data of a response -/

/-- The text is that of the bytes, provided they have one. -/
def TextOf (bytes : List UInt8) (s : String) : Prop := ∀ t, bytes = Utf8.encode t → s = t

theorem textOf_decodeLossy (bytes : List UInt8) : TextOf bytes (Utf8.decodeLossy bytes) := by
  rintro t rfl
  exact Utf8.decodeLossy_encode t

theorem Json.readBytes?_eq_some_iff {bytes : List UInt8} {j : Json} :
    readBytes? bytes = some j ↔ ∃ t, bytes = Utf8.encode t ∧ read? t = some j := by
  simp only [readBytes?, Option.bind_eq_some_iff, Utf8.decode?_eq_some_iff]

namespace Response

variable (r : Response)

/-- What the body of a response is read as. A body that is declared to be JSON and is not the text of one JSON
value is text. -/
inductive Reads : Payload → Prop
  | binary (hjson : ¬r.DeclaresJson) (htext : ¬r.DeclaresText) : Reads (.binary r.body)
  | text (hjson : ¬r.DeclaresJson) (htext : r.DeclaresText) {s : String} (hs : TextOf r.body s) :
    Reads (.text s)
  | empty (hjson : r.DeclaresJson) (hbody : r.body = []) : Reads (.json .null)
  | value (hjson : r.DeclaresJson) {t : String} {j : Json} (hbody : r.body = Utf8.encode t)
    (hread : Json.read? t = some j) : Reads (.json j)
  | mislabelled (hjson : r.DeclaresJson) (hbody : r.body ≠ [])
    (hnone : ∀ t, r.body = Utf8.encode t → Json.read? t = none) {s : String} (hs : TextOf r.body s) :
    Reads (.text s)

theorem reads_payload_of_json (hjson : r.DeclaresJson) : r.Reads r.payload := by
  rw [payload, contentKind_of_json hjson]
  dsimp only
  by_cases hbody : r.body = []
  · rw [if_pos (List.isEmpty_iff.2 hbody)]
    exact .empty hjson hbody
  · rw [if_neg fun hempty => hbody (List.isEmpty_iff.1 hempty)]
    cases hread : Json.readBytes? r.body with
    | some j =>
      obtain ⟨t, ht, hj⟩ := Json.readBytes?_eq_some_iff.1 hread
      exact .value hjson ht hj
    | none =>
      refine .mislabelled hjson hbody (fun t ht => ?_) (textOf_decodeLossy r.body)
      refine Option.eq_none_iff_forall_ne_some.2 fun j hj => ?_
      rw [Json.readBytes?_eq_some_iff.2 ⟨t, ht, hj⟩] at hread
      cases hread

/-- Every response has a reading. -/
theorem reads_payload : r.Reads r.payload := by
  by_cases hjson : r.DeclaresJson
  · exact r.reads_payload_of_json hjson
  · by_cases htext : r.DeclaresText
    · rw [payload, contentKind_of_text hjson htext]
      exact .text hjson htext (textOf_decodeLossy r.body)
    · rw [payload, contentKind_of_binary hjson htext]
      exact .binary hjson htext

end Response

/-! ## The end of a call that was sent -/

theorem isSuccessStatus_iff {status : Nat} : isSuccessStatus status = true ↔ 200 ≤ status ∧ status ≤ 299 := by
  simp only [isSuccessStatus, Bool.and_eq_true, decide_eq_true_eq]
  omega

/-- How a call to the endpoint `id` that may take `limit` milliseconds ends: after how long and with what. A
reply that is there when the time is up still counts. -/
inductive Reply.Ends (reply : Reply) (limit : Nat) (id : String) : Nat → Except Failure Envelope → Prop
  | late (h : limit < reply.delay) : Ends reply limit id limit (.error (.timedOut id limit))
  | timeout (h : reply.delay ≤ limit) {ms : Nat} (houtcome : reply.outcome = .error (.timeout ms)) :
    Ends reply limit id reply.delay (.error (.timedOut id ms))
  | network (h : reply.delay ≤ limit) {text : String} (houtcome : reply.outcome = .error (.network text)) :
    Ends reply limit id reply.delay (.error (.transport id text))
  | invalid (h : reply.delay ≤ limit) {text : String} (houtcome : reply.outcome = .error (.invalid text)) :
    Ends reply limit id reply.delay (.error (.refused id text))
  | status (h : reply.delay ≤ limit) {r : Response} (houtcome : reply.outcome = .ok r)
    (hstatus : ¬(200 ≤ r.status ∧ r.status ≤ 299)) :
    Ends reply limit id reply.delay (.error (.http r.status r.statusText))
  | success (h : reply.delay ≤ limit) {r : Response} (houtcome : reply.outcome = .ok r)
    (hstatus : 200 ≤ r.status ∧ r.status ≤ 299) {envelope : Envelope} (hdata : r.Reads envelope.data)
    (hsame : envelope.status = r.status ∧ envelope.statusText = r.statusText ∧ envelope.cached = false) :
    Ends reply limit id reply.delay (.ok envelope)

theorem Reply.Ends.of_response {reply : Reply} {limit : Nat} (h : reply.delay ≤ limit) (call : Call)
    (id : String) {r : Response} (houtcome : reply.outcome = .ok r) :
    reply.Ends limit id reply.delay (call.classify id (.ok r)) := by
  by_cases hstatus : isSuccessStatus r.status = true
  · have hclassify : call.classify id (.ok r) = .ok (r.envelope call) := if_pos hstatus
    rw [hclassify, Response.envelope]
    refine .success h houtcome (isSuccessStatus_iff.1 hstatus) ?_ ⟨rfl, rfl, rfl⟩
    -- the field first: compared as it is, it has `payload` unfolded
    dsimp only
    exact r.reads_payload
  · have hclassify : call.classify id (.ok r) = .error (.http r.status r.statusText) := if_neg hstatus
    rw [hclassify]
    exact .status h houtcome fun hok => hstatus (isSuccessStatus_iff.2 hok)

theorem Call.ends_settle (call : Call) (id : String) (reply : Reply) :
    reply.Ends call.timeout id (call.settle id reply).1 (call.settle id reply).2 := by
  unfold settle
  split
  case isFalse hlate => exact .late (Nat.lt_of_not_le hlate)
  case isTrue htime =>
    cases houtcome : reply.outcome with
    | ok r => exact .of_response htime call id houtcome
    | error error =>
      cases error with
      | timeout ms => exact .timeout htime houtcome
      | network text => exact .network htime houtcome
      | invalid text => exact .invalid htime houtcome

/-! ## One attempt -/

/-- The endpoint asks for an access token and there is none. -/
def Endpoint.LacksToken (e : Endpoint) (tokens : Tokens) : Prop :=
  e.auth.kind = "oauth2" ∧ tokens.get? e.id = none

/-- How one attempt ends: without a call if the URL does not parse or a token is missing, else with one call
more on the wire and by what its reply says. -/
structure Concludes {ω : Type} (transport : Transport ω) (tokens : Tokens) (e : Endpoint)
    (options : CallOptions) (now : Nat) (wire after : Wire ω) (time : Nat)
    (answer : Except Failure Envelope) : Prop where
  unparsed : ∀ error, Url.parse e.url = .error error →
    after = wire ∧ time = 0 ∧ answer = .error (.badUrl e.id e.url error)
  tokenless : ∀ url, Url.parse e.url = .ok url → e.LacksToken tokens →
    after = wire ∧ time = 0 ∧ answer = .error (.noToken e.id)
  sent : ∀ url, Url.parse e.url = .ok url → ¬e.LacksToken tokens →
    ∃ call reply, Call.prepare tokens e options = .ok call ∧
      after.sent = ⟨now, call⟩ :: wire.sent ∧
      transport.send wire.state now call = (reply, after.state) ∧
      reply.Ends (options.timeout.getD e.timeout) e.id time answer

section Attempt

variable {tokens : Tokens} {e : Endpoint} {options : CallOptions}

theorem Endpoint.target_ne_error {url : Url} (h : Url.parse e.url = .ok url) (failure : Failure) :
    e.target options ≠ .error failure := by
  intro htarget
  obtain ⟨error, herror, -⟩ := target_eq_error_iff.1 htarget
  rw [h] at herror
  cases herror

theorem Call.prepare_of_unparsed {error : UrlError} (h : Url.parse e.url = .error error) :
    Call.prepare tokens e options = .error (.badUrl e.id e.url error) :=
  prepare_eq_error_iff.2 (.inl (Endpoint.target_eq_error_iff.2 ⟨error, h, rfl⟩))

theorem Call.prepare_of_lacksToken {url : Url} (h : Url.parse e.url = .ok url) (htoken : e.LacksToken tokens) :
    Call.prepare tokens e options = .error (.noToken e.id) := by
  cases htarget : e.target options with
  | error failure => exact absurd htarget (Endpoint.target_ne_error h failure)
  | ok target =>
    exact prepare_eq_error_iff.2
      (.inr ⟨target, htarget, Auth.apply_eq_error_iff.2 ⟨htoken.1, htoken.2, rfl⟩⟩)

theorem Call.exists_prepare {url : Url} (h : Url.parse e.url = .ok url) (htoken : ¬e.LacksToken tokens) :
    ∃ call, Call.prepare tokens e options = .ok call ∧
      call.timeout = options.timeout.getD e.timeout := by
  cases hprepare : Call.prepare tokens e options with
  | ok call =>
    obtain ⟨target, headers, -, -, rfl⟩ := prepare_eq_ok_iff.1 hprepare
    exact ⟨_, rfl, rfl⟩
  | error failure =>
    rcases prepare_eq_error_iff.1 hprepare with htarget | ⟨target, -, happly⟩
    · exact absurd htarget (Endpoint.target_ne_error h failure)
    · obtain ⟨hkind, hnone, -⟩ := Auth.apply_eq_error_iff.1 happly
      exact absurd ⟨hkind, hnone⟩ htoken

end Attempt

namespace Errand

variable {ω : Type} (e : Errand) (transport : Transport ω) (tokens : Tokens) (now : Nat) (wire : Wire ω)

theorem call_of_error {failure : Failure} (h : Call.prepare tokens e.endpoint e.options = .error failure) :
    e.call transport tokens now wire = (wire, 0, .error failure) := by
  rw [call, h]

theorem call_of_ok {prepared : Call} (h : Call.prepare tokens e.endpoint e.options = .ok prepared) :
    e.call transport tokens now wire =
      (⟨(transport.send wire.state now prepared).2, ⟨now, prepared⟩ :: wire.sent⟩,
        prepared.settle e.endpoint.id (transport.send wire.state now prepared).1) := by
  rw [call, h]
  rfl

theorem concludes_call :
    Concludes transport tokens e.endpoint e.options now wire (e.call transport tokens now wire).1
      (e.call transport tokens now wire).2.1 (e.call transport tokens now wire).2.2 := by
  refine ⟨fun error h => ?_, fun url h htoken => ?_, fun url h htoken => ?_⟩
  · rw [e.call_of_error transport tokens now wire (Call.prepare_of_unparsed h)]
    exact ⟨rfl, rfl, rfl⟩
  · rw [e.call_of_error transport tokens now wire (Call.prepare_of_lacksToken h htoken)]
    exact ⟨rfl, rfl, rfl⟩
  · obtain ⟨prepared, hprepare, htimeout⟩ := @Call.exists_prepare tokens e.endpoint e.options url h htoken
    rw [e.call_of_ok transport tokens now wire hprepare, ← htimeout]
    have hends := prepared.ends_settle e.endpoint.id (transport.send wire.state now prepared).1
    exact ⟨prepared, _, hprepare, rfl, rfl, hends⟩

/-- Without a policy the first attempt is the last one. -/
theorem run_of_call (h : e.policy = none) :
    ∃ enough, ∀ fuel, enough ≤ fuel → e.run transport tokens fuel now wire =
      some ⟨now + (e.call transport tokens now wire).2.1, (e.call transport tokens now wire).1,
        [.done (now + (e.call transport tokens now wire).2.1) (e.call transport tokens now wire).2.2]⟩ := by
  have hjudge : judge e.policy e.endpoint.id 1 (e.call transport tokens now wire).2.2 =
      .finished (e.call transport tokens now wire).2.2 := by
    rw [h]
    cases (e.call transport tokens now wire).2.2 <;> rfl
  exact (e.alone_of_finished transport tokens hjudge).run_eq (Nat.le_refl now) rfl

/-- Without a policy an errand is one attempt, and it is answered when the attempt ends. -/
theorem outcome_of_run (endpoint : Endpoint) (options : CallOptions) :
    ∃ time after answer, Concludes transport tokens endpoint options now wire after time answer ∧
      ∃ enough, ∀ fuel, enough ≤ fuel →
        (Errand.mk endpoint options none).run transport tokens fuel now wire =
          some ⟨now + time, after, [.done (now + time) answer]⟩ :=
  let e : Errand := ⟨endpoint, options, none⟩
  ⟨_, _, _, e.concludes_call transport tokens now wire, e.run_of_call transport tokens now wire rfl⟩

end Errand

end Egress
