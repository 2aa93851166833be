import Egress.Proofs.Endpoint.RoundTrip
import Egress.Proofs.Errand
import Egress.Transport.Scripted

/-!
# What two bodies make, and what of it is sent

* `Body.merged_object`: two objects make the one that has the members of both, laid over one another
  (`Dict.overlay`); from this it is associative and idempotent. `Body.merged_of_not_objects` is all the rest.
* `Body.merged_reread`: to take a JSON string for a text before two bodies are merged or after it is one.
* `Errand.run_withBodies`: an errand whose bodies are the same but for that is the same errand.
* `Errand.body_of_run`: what of the two bodies is in the calls that an errand sends, which is nothing where the
  method is GET or HEAD.
-/

set_option autoImplicit false

namespace Egress

namespace Body

/-! ## Objects -/

/-- The JSON object with these members as a body. -/
def object (members : Dict Json) : Option Body := some (.json (.ofDict members))

theorem merged_object (base above : Dict Json) :
    merged (object base) (object above) = object (base.overlay above) := by
  rw [object, object, object, Json.ofDict, Json.ofDict, Json.ofDict, Dict.overlay, Dict.entries_insertMany]
  rfl

theorem merged_assoc (first second third : Dict Json) :
    merged (merged (object first) (object second)) (object third) =
      merged (object first) (merged (object second) (object third)) := by
  rw [merged_object, merged_object, merged_object, merged_object, Dict.overlay_assoc]

theorem merged_self (members : Dict Json) : merged (object members) (object members) = object members := by
  rw [merged_object, Dict.overlay_self]

/-- Both are there and JSON objects. -/
def BothObjects (base call : Option Body) : Prop :=
  ∃ below above, base = some (.json (.object below)) ∧ call = some (.json (.object above))

theorem merged_of_not_objects {base call : Option Body} (h : ¬BothObjects base call) :
    merged base call = call.or base := by
  unfold merged
  split
  · exact absurd ⟨_, _, rfl, rfl⟩ h
  · rfl

/-! ## Strings -/

theorem reread_eq_object {b : Body} {fields : List (String × Json)} (h : b.reread = .json (.object fields)) :
    b = .json (.object fields) := by
  unfold reread at h
  split at h
  · cases h
  · exact h

theorem map_reread_eq_object {b : Option Body} {fields : List (String × Json)}
    (h : b.map reread = some (.json (.object fields))) : b = some (.json (.object fields)) := by
  obtain ⟨body, rfl, hbody⟩ := Option.map_eq_some_iff.1 h
  rw [reread_eq_object hbody]

/-- A string that is taken for a text is no object before or after. -/
theorem merged_reread (base call : Option Body) :
    merged (base.map reread) (call.map reread) = (merged base call).map reread := by
  by_cases h : BothObjects base call
  · obtain ⟨below, above, rfl, rfl⟩ := h
    rfl
  · have h' : ¬BothObjects (base.map reread) (call.map reread) := fun ⟨below, above, hbase, hcall⟩ =>
      h ⟨below, above, map_reread_eq_object hbase, map_reread_eq_object hcall⟩
    rw [merged_of_not_objects h, merged_of_not_objects h']
    cases call <;> rfl

theorem encode_merged_reread (base call : Option Body) :
    (merged (base.map reread) (call.map reread)).map encode = (merged base call).map encode := by
  rw [merged_reread, Option.map_map]
  exact congrArg (Option.map · _) (funext encode_reread)

end Body

/-! ## Calls -/

/-- The bytes of a call are those of the merged body, if its method carries one. -/
theorem Endpoint.map_callBody (e : Endpoint) (options : CallOptions) :
    (e.callBody options).map Body.encode =
      if e.method.allowsBody then (Body.merged e.body options.body).map Body.encode else none := by
  unfold callBody
  cases e.method.allowsBody <;> cases Body.merged e.body options.body <;> rfl

theorem Method.not_allowsBody_iff {m : Method} : ¬m.allowsBody = true ↔ m = .get ∨ m = .head := by
  cases m <;> decide

namespace Errand

/-- The errand with these bodies of the endpoint and of the call. -/
def withBodies (e : Errand) (base call : Option Body) : Errand :=
  { e with endpoint := { e.endpoint with body := base }, options := { e.options with body := call } }

variable {ω : Type} (e : Errand) (transport : Transport ω) (tokens : Tokens)

/-- What a call is prepared from besides the bodies is the same. -/
theorem prepare_withBodies {base call base' call' : Option Body}
    (h : (Body.merged base call).map Body.encode = (Body.merged base' call').map Body.encode) :
    Call.prepare tokens (e.withBodies base call).endpoint (e.withBodies base call).options =
      Call.prepare tokens (e.withBodies base' call').endpoint (e.withBodies base' call').options := by
  have hbody : ∀ base call, ((e.withBodies base call).endpoint.callBody (e.withBodies base call).options).map
      Body.encode = if e.endpoint.method.allowsBody then (Body.merged base call).map Body.encode else none :=
    fun base call => Endpoint.map_callBody _ _
  unfold Call.prepare
  rw [hbody, hbody, h]
  rfl

/-- Errands that prepare the same call take the same course. -/
theorem run_congr {e e' : Errand} (hid : e.endpoint.id = e'.endpoint.id) (hpolicy : e.policy = e'.policy)
    (hprepare : Call.prepare tokens e.endpoint e.options = Call.prepare tokens e'.endpoint e'.options) :
    e.run transport tokens = e'.run transport tokens := by
  have hact : e.act transport tokens = e'.act transport tokens := by
    funext now wire stage
    cases stage with
    | pausing n => simp only [act, call, hprepare, hid]
    | calling n result => simp only [act, hpolicy, hid]
  funext fuel now wire
  unfold run workshop
  rw [hact]

/-- An errand with a JSON string for a body, in either place, is the one with its text. -/
theorem run_withBodies (base call : Option Body) :
    (e.withBodies (base.map Body.reread) (call.map Body.reread)).run transport tokens =
      (e.withBodies base call).run transport tokens :=
  run_congr transport tokens rfl rfl (e.prepare_withBodies tokens (Body.encode_merged_reread base call))

/-- The calls that are added to those sent before have the method of the endpoint, and the bytes of both bodies
merged unless the method is GET or HEAD. -/
theorem body_of_run {fuel now : Nat} {wire : Wire ω}
    {outcome : Schedule.Outcome (Wire ω) Stage (Except Failure Envelope)}
    (h : e.run transport tokens fuel now wire = some outcome) :
    ∃ new, outcome.shared.sent = new ++ wire.sent ∧ ∀ sent ∈ new,
      sent.call.body = if e.endpoint.method = .get ∨ e.endpoint.method = .head then none
        else (Body.merged e.endpoint.body e.options.body).map Body.encode := by
  obtain ⟨new, hnew, hprepared⟩ := e.sends_run transport tokens h
  refine ⟨new, hnew, fun sent hsent => ?_⟩
  obtain ⟨url, headers, -, -, hcall⟩ := Call.prepare_eq_ok_iff.1 (hprepared sent hsent)
  rw [hcall]
  dsimp only
  rw [Endpoint.map_callBody]
  by_cases hmethod : e.endpoint.method.allowsBody = true
  · rw [if_pos hmethod, if_neg fun h => Method.not_allowsBody_iff.2 h hmethod]
  · rw [if_neg hmethod, if_pos (Method.not_allowsBody_iff.1 hmethod)]

end Errand

/-! ## Both -/

/-- Two objects make the one with the keys of both and under each of them the whole value of the call, if the
call has it; of any other two bodies that of the call is taken, if there is one. On objects this is associative
and idempotent. Where one of the bodies is a JSON string, an errand takes the same course and sends the same
calls as with the text of that string, whatever the other body and the method. All that an errand sends are the
bytes of the merged body, and none if the method is GET or HEAD. -/
theorem Body.merged_and_sent :
    (∀ base above : Dict Json, ∃ joined, merged (object base) (object above) = object joined ∧
        (∀ key, key ∈ joined.keys ↔ key ∈ base.keys ∨ key ∈ above.keys) ∧
        ∀ key, joined.get? key = (above.get? key).or (base.get? key)) ∧
      (∀ base call, ¬BothObjects base call → merged base call = call.or base) ∧
      (∀ first second third : Dict Json,
        merged (merged (object first) (object second)) (object third) =
          merged (object first) (merged (object second) (object third))) ∧
      (∀ members : Dict Json, merged (object members) (object members) = object members) ∧
      ∀ {ω : Type} (transport : Transport ω) (tokens : Tokens) (e : Errand),
        (∀ (s : String) (other : Option Body),
          (e.withBodies (some (.json (.string s))) other).run transport tokens =
              (e.withBodies (some (.text s)) other).run transport tokens ∧
            (e.withBodies other (some (.json (.string s)))).run transport tokens =
              (e.withBodies other (some (.text s))).run transport tokens) ∧
        ∀ fuel now wire outcome, e.run transport tokens fuel now wire = some outcome →
          ∃ new, outcome.shared.sent = new ++ wire.sent ∧ ∀ sent ∈ new,
            sent.call.body = if e.endpoint.method = .get ∨ e.endpoint.method = .head then none
              else (merged e.endpoint.body e.options.body).map encode := by
  refine ⟨fun base above => ?_, fun base call => merged_of_not_objects, merged_assoc, merged_self,
    fun transport tokens e => ⟨fun s other => ⟨?_, ?_⟩, fun fuel now wire outcome => ?_⟩⟩
  · exact ⟨base.overlay above, merged_object base above, fun key => Dict.mem_keys_overlay,
      base.get?_overlay above⟩
  · have hstring := e.run_withBodies transport tokens (some (.json (.string s))) other
    have htext := e.run_withBodies transport tokens (some (.text s)) other
    exact hstring.symm.trans htext
  · have hstring := e.run_withBodies transport tokens other (some (.json (.string s)))
    have htext := e.run_withBodies transport tokens other (some (.text s))
    exact hstring.symm.trans htext
  · exact e.body_of_run transport tokens

/-- A lamp that is switched on by default. -/
def Errand.lamp (method : Method) : Errand where
  endpoint :=
    { Endpoint.plain "lamp" "Lamp" "http://h/" with
      method, body := Body.object (Dict.ofList [("on", .bool true), ("hue", .object [("red", .int 9)])]) }
  options :=
    { CallOptions.plain with body := Body.object (Dict.ofList [("hue", .object [("blue", .int 7)])]) }
  policy := none

/-- The hue of the call takes the place of the other one; a text takes the place of everything. -/
theorem Body.merged_and_sent_lamp :
    let sentBy (method : Method) :=
      ((Errand.lamp method).run .scripted none 3 0 ⟨Script.empty, []⟩).map (·.shared.sent.map (·.call.body))
    sentBy .put = some [some (Text.Utf8.encode "\x7b\"hue\":\x7b\"blue\":7\x7d,\"on\":true\x7d")] ∧
      sentBy .head = some [none] ∧
      merged (Errand.lamp .put).endpoint.body (some (.text "off")) = some (.text "off") := by
  obtain ⟨-, hother, -, -, herrand⟩ := merged_and_sent
  have hsent : ∀ method, ∃ outcome sent,
      (Errand.lamp method).run .scripted none 3 0 ⟨Script.empty, []⟩ = some outcome ∧
        outcome.shared.sent = [sent] := by
    intro method
    have hone : ((Errand.lamp method).run .scripted none 3 0 ⟨Script.empty, []⟩).map
        (·.shared.sent.length) = some 1 := by cases method <;> rfl
    obtain ⟨outcome, hrun, hlength⟩ := Option.map_eq_some_iff.1 hone
    obtain ⟨sent, hsent⟩ := List.length_eq_one_iff.1 hlength
    exact ⟨outcome, sent, hrun, hsent⟩
  have hbody : ∀ method, ((Errand.lamp method).run .scripted none 3 0 ⟨Script.empty, []⟩).map
      (·.shared.sent.map (·.call.body)) = some [if method = .get ∨ method = .head then none
        else (merged (Errand.lamp method).endpoint.body (Errand.lamp method).options.body).map encode] := by
    intro method
    obtain ⟨outcome, sent, hrun, hone⟩ := hsent method
    obtain ⟨new, hnew, hbody⟩ := (herrand .scripted none (Errand.lamp method)).2 _ _ _ _ hrun
    obtain rfl : [sent] = new := by rw [← hone, hnew, List.append_nil]
    rw [hrun, Option.map_some, hone, List.map_singleton, hbody sent (List.mem_singleton_self sent)]
    rfl
  refine ⟨(hbody .put).trans ?_, hbody .head, hother _ _ ?_⟩
  · rfl
  · rintro ⟨below, above, -, h⟩
    cases h

end Egress
