import Egress.Errand
import Egress.Proofs.Schedule

/-!
# Errands come to an end

A policy allows so many attempts and no more (`judge_again`), so that every errand is answered in the end
(`exists_alone`). Whatever it sends until then is the call that it prepares (`sends_run`), and when a call can
be prepared is said once for all (`Call.prepare_eq_ok_iff`, `Call.prepare_eq_error_iff`). An envelope that an
errand brings is never one from the cache (`cached_of_act`), and a failure never one of a request that made no
call (`ofCall_of_judge`).
-/

set_option autoImplicit false

namespace Egress

/-! ## What a call is prepared from -/

theorem Endpoint.target_eq_error_iff {e : Endpoint} {options : CallOptions} {failure : Failure} :
    e.target options = .error failure ↔
      ∃ error, Url.parse e.url = .error error ∧ failure = .badUrl e.id e.url error := by
  unfold target
  cases Url.parse e.url with
  | error error => simp [eq_comm]
  | ok url => dsimp only; split <;> simp

/-- A scheme fails only for want of the access token that it needs. -/
theorem Auth.header?_eq_error_iff {tokens : Tokens} {id : String} {auth : Auth} {failure : Failure} :
    auth.header? tokens id = .error failure ↔
      auth.kind = "oauth2" ∧ tokens.get? id = Option.none ∧ failure = .noToken id := by
  cases auth with
  | oauth2 client refreshToken expiresAt =>
    cases htoken : tokens.get? id <;> simp [header?, kind, htoken, eq_comm]
  | none => simp [header?, kind]
  | bearer token => simp [header?, kind]
  | apiKey key header => simp [header?, kind]
  | basic username password => simp [header?, kind]

theorem Auth.apply_eq_error_iff {tokens : Tokens} {id : String} {auth : Auth} {headers : Dict String}
    {failure : Failure} : auth.apply tokens id headers = .error failure ↔
      auth.kind = "oauth2" ∧ tokens.get? id = Option.none ∧ failure = .noToken id := by
  rw [← header?_eq_error_iff, apply]
  rcases auth.header? tokens id with failure' | _ | ⟨name, value⟩ <;> simp

theorem Auth.apply_eq_ok_iff {tokens : Tokens} {id : String} {auth : Auth} {headers result : Dict String} :
    auth.apply tokens id headers = .ok result ↔
      ∃ own, auth.header? tokens id = .ok own ∧
        own.elim headers (fun h => headers.insert h.1 h.2) = result := by
  rw [apply]
  rcases auth.header? tokens id with failure | _ | ⟨name, value⟩ <;> simp

namespace Call

variable {tokens : Tokens} {e : Endpoint} {options : CallOptions}

theorem prepare_eq_ok_iff {call : Call} :
    prepare tokens e options = .ok call ↔
      ∃ url headers, e.target options = .ok url ∧
        e.auth.apply tokens e.id (e.mergedHeaders options) = .ok headers ∧
        call = { method := e.method, url, headers, body := (e.callBody options).map Body.encode,
                 timeout := options.timeout.getD e.timeout } := by
  unfold prepare
  cases e.target options with
  | error failure => simp [bind, Except.bind]
  | ok url =>
    cases e.auth.apply tokens e.id (e.mergedHeaders options) <;>
      simp [bind, Except.bind, pure, Except.pure, eq_comm]

theorem prepare_eq_error_iff {failure : Failure} :
    prepare tokens e options = .error failure ↔
      e.target options = .error failure ∨
        ∃ url, e.target options = .ok url ∧
          e.auth.apply tokens e.id (e.mergedHeaders options) = .error failure := by
  unfold prepare
  cases e.target options with
  | error failure' => simp [bind, Except.bind]
  | ok url =>
    cases e.auth.apply tokens e.id (e.mergedHeaders options) <;> simp [bind, Except.bind, pure, Except.pure]

end Call

/-! ## Results of attempts -/

theorem Call.cached_of_settle {call : Call} {id : String} {reply : Reply} {envelope : Envelope}
    (h : (call.settle id reply).2 = .ok envelope) : envelope.cached = false := by
  unfold Call.settle at h
  split at h
  · unfold Call.classify at h
    split at h
    · cases h
    · split at h
      · obtain rfl := Except.ok.inj h
        rfl
      · cases h
  · cases h

theorem judge_again {policy : Option RetryPolicy} {id : String} {n delay : Nat}
    {result : Except Failure Envelope} (h : judge policy id n result = .again delay) :
    ∃ p, policy = some p ∧ n < p.attempts := by
  unfold judge at h
  cases result with
  | ok envelope => cases h
  | error failure =>
    cases policy with
    | none => cases h
    | some p =>
      dsimp only at h
      split at h
      · cases h
      · split at h
        · cases h
        · next hlt => exact ⟨p, rfl, Nat.not_le.1 hlt⟩

theorem judge_ok {policy : Option RetryPolicy} {id : String} {n : Nat}
    {result : Except Failure Envelope} {envelope : Envelope}
    (h : judge policy id n result = .finished (.ok envelope)) : result = .ok envelope := by
  unfold judge at h
  cases result with
  | ok envelope => cases h; rfl
  | error failure =>
    dsimp only at h
    split at h
    · cases h
    · split at h
      · cases h
      · split at h <;> cases h

namespace Errand

variable {ω : Type} (e : Errand) (transport : Transport ω) (tokens : Tokens)

theorem cached_of_call {now : Nat} {wire : Wire ω} {envelope : Envelope}
    (h : (e.call transport tokens now wire).2.2 = .ok envelope) : envelope.cached = false := by
  unfold call at h
  split at h
  · cases h
  · exact Call.cached_of_settle h

/-- What an attempt brings is not from the cache. -/
def Stage.Fresh : Stage → Prop
  | .pausing _ => True
  | .calling _ result => ∀ envelope, result = .ok envelope → envelope.cached = false

theorem fresh_of_act {now : Nat} {wire wire' : Wire ω} {stage next : Stage} {duration : Nat}
    (h : e.act transport tokens now wire stage = (wire', .wait duration next)) : next.Fresh := by
  cases stage with
  | pausing n =>
    cases h
    exact fun envelope hok => e.cached_of_call transport tokens hok
  | calling n result =>
    unfold act at h
    dsimp only at h
    split at h <;> cases h
    trivial

theorem cached_of_act {now : Nat} {wire wire' : Wire ω} {stage : Stage} (hstage : stage.Fresh)
    {envelope : Envelope}
    (h : e.act transport tokens now wire stage = (wire', .finish (.ok envelope))) :
    envelope.cached = false := by
  cases stage with
  | pausing n => cases h
  | calling n result =>
    unfold act at h
    dsimp only at h
    split at h
    · next hjudge =>
      cases h
      exact hstage envelope (judge_ok hjudge)
    · cases h

/-- What an errand brings is not from the cache. -/
theorem cached_of_alone {now t : Nat} {wire wire' : Wire ω} {stage : Stage} (hstage : stage.Fresh)
    {answer : Except Failure Envelope}
    (h : Schedule.Alone (e.workshop transport tokens) now wire stage t wire' answer) :
    ∀ envelope, answer = .ok envelope → envelope.cached = false := by
  induction h with
  | finish h =>
    rintro envelope rfl
    exact e.cached_of_act transport tokens hstage h
  | wait h _ ih => exact ih (e.fresh_of_act transport tokens h)

theorem act_of_finished {now n : Nat} {wire : Wire ω} {result answer : Except Failure Envelope}
    (h : judge e.policy e.endpoint.id n result = .finished answer) :
    (e.workshop transport tokens).act now wire (.calling n result) = (wire, .finish answer) := by
  simp only [workshop, act, h]

theorem act_of_again {now n delay : Nat} {wire : Wire ω} {result : Except Failure Envelope}
    (h : judge e.policy e.endpoint.id n result = .again delay) :
    (e.workshop transport tokens).act now wire (.calling n result) =
      (wire, .wait delay (.pausing (n + 1))) := by
  simp only [workshop, act, h]

/-- The last attempt. -/
theorem alone_of_finished {now n : Nat} {wire : Wire ω} {answer : Except Failure Envelope}
    (h : judge e.policy e.endpoint.id n (e.call transport tokens now wire).2.2 = .finished answer) :
    Schedule.Alone (e.workshop transport tokens) now wire (.pausing n)
      (now + (e.call transport tokens now wire).2.1) (e.call transport tokens now wire).1 answer :=
  .wait rfl (.finish (e.act_of_finished transport tokens h))

/-- Every errand is answered. -/
theorem exists_alone (now n : Nat) (wire : Wire ω) :
    ∃ t wire' answer,
      Schedule.Alone (e.workshop transport tokens) now wire (.pausing n) t wire' answer := by
  cases hjudge : judge e.policy e.endpoint.id n (e.call transport tokens now wire).2.2 with
  | finished answer => exact ⟨_, _, _, e.alone_of_finished transport tokens hjudge⟩
  | again delay =>
    obtain ⟨p, hp, hlt⟩ := judge_again hjudge
    have hleft : e.policy.elim 0 (·.attempts) - (n + 1) < e.policy.elim 0 (·.attempts) - n := by
      rw [hp, Option.elim_some]
      omega
    obtain ⟨t, wire', answer, hrest⟩ :=
      exists_alone (now + (e.call transport tokens now wire).2.1 + delay) (n + 1)
        (e.call transport tokens now wire).1
    exact ⟨t, wire', answer, .wait rfl (.wait (e.act_of_again transport tokens hjudge) hrest)⟩
termination_by e.policy.elim 0 (·.attempts) - n

/-! ### What an errand sends -/

/-- The errand has added calls to those that were sent before, each of them as it is prepared. -/
def Sends (before after : Wire ω) : Prop :=
  ∃ new, after.sent = new ++ before.sent ∧
    ∀ sent ∈ new, Call.prepare tokens e.endpoint e.options = .ok sent.call

theorem sends_refl (wire : Wire ω) : e.Sends tokens wire wire := ⟨[], rfl, fun _ h => by cases h⟩

variable {e tokens} in
theorem Sends.trans {first second third : Wire ω} (h : e.Sends tokens first second)
    (h' : e.Sends tokens second third) : e.Sends tokens first third := by
  obtain ⟨new, hnew, hprepared⟩ := h
  obtain ⟨more, hmore, hprepared'⟩ := h'
  refine ⟨more ++ new, by rw [hmore, hnew, List.append_assoc], fun sent hmem => ?_⟩
  rcases List.mem_append.1 hmem with hmem | hmem
  · exact hprepared' sent hmem
  · exact hprepared sent hmem

theorem sends_call (now : Nat) (wire : Wire ω) : e.Sends tokens wire (e.call transport tokens now wire).1 := by
  unfold call
  split
  · exact e.sends_refl tokens wire
  · next call hprepare =>
    refine ⟨[⟨now, call⟩], rfl, fun sent hmem => ?_⟩
    obtain rfl := List.mem_singleton.1 hmem
    exact hprepare

theorem sends_act (now : Nat) (wire : Wire ω) (stage : Stage) :
    e.Sends tokens wire (e.act transport tokens now wire stage).1 := by
  cases stage with
  | pausing n => exact e.sends_call transport tokens now wire
  | calling n result =>
    unfold act
    dsimp only
    split <;> exact e.sends_refl tokens wire

/-- Whatever an errand sends in the course of its attempts is its call. -/
theorem sends_run {fuel now : Nat} {wire : Wire ω}
    {outcome : Schedule.Outcome (Wire ω) Stage (Except Failure Envelope)}
    (h : e.run transport tokens fuel now wire = some outcome) : e.Sends tokens wire outcome.shared :=
  (Schedule.run_invariant (e.workshop transport tokens)
    (P := fun _ shared _ => e.Sends tokens wire shared)
    (fun _ _ _ _ _ _ hsends => hsends.trans (e.sends_act transport tokens _ _ _))
    (e.sends_refl tokens wire) h).1

end Errand

/-! ## Failures of attempts -/

/-- A request with this failure made no call: its endpoint is unknown, or there was no room under its
limit. -/
def Failure.turnsAway : Failure → Bool
  | .registry _ => true
  | .rateLimited .. => true
  | _ => false

/-- The result may be that of a call. -/
def OfCall (result : Except Failure Envelope) : Prop :=
  ∀ failure, result = .error failure → failure.turnsAway = false

theorem Call.turnsAway_of_prepare {tokens : Tokens} {e : Endpoint} {options : CallOptions}
    {failure : Failure} (h : Call.prepare tokens e options = .error failure) : failure.turnsAway = false := by
  rcases prepare_eq_error_iff.1 h with htarget | ⟨url, -, happly⟩
  · obtain ⟨error, -, rfl⟩ := Endpoint.target_eq_error_iff.1 htarget
    rfl
  · obtain ⟨-, -, rfl⟩ := Auth.apply_eq_error_iff.1 happly
    rfl

theorem Call.ofCall_settle (call : Call) (id : String) (reply : Reply) :
    OfCall (call.settle id reply).2 := by
  intro failure h
  unfold settle classify at h
  split at h
  · split at h
    · next error _ =>
      cases h
      cases error <;> rfl
    · split at h <;> cases h
      rfl
  · cases h
    rfl

theorem Errand.ofCall_call {ω : Type} (e : Errand) (transport : Transport ω) (tokens : Tokens) (now : Nat)
    (wire : Wire ω) : OfCall (e.call transport tokens now wire).2.2 := by
  unfold call
  split
  · next failure hprepare =>
    intro failure' h
    cases h
    exact Call.turnsAway_of_prepare hprepare
  · exact Call.ofCall_settle _ _ _

/-- What an attempt brings is the result of a call. -/
def Errand.Stage.OfCall : Errand.Stage → Prop
  | .pausing _ => True
  | .calling _ result => Egress.OfCall result

theorem ofCall_of_judge {policy : Option RetryPolicy} {id : String} {n : Nat}
    {result answer : Except Failure Envelope} (h : judge policy id n result = .finished answer)
    (hresult : OfCall result) : OfCall answer := by
  cases result with
  | ok envelope =>
    cases h
    exact hresult
  | error failure =>
    unfold judge at h
    dsimp only at h
    split at h
    · cases h
      exact hresult
    · split at h
      · cases h
        exact hresult
      · split at h <;> cases h
        intro failure' heq
        cases heq
        rfl

end Egress
