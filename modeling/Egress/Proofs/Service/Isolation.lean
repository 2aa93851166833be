import Egress.Proofs.Service.Batches
import Egress.Proofs.Service.Ownership

/-!
# Operations on one endpoint and the others

Whatever is done to one id leaves the part of every other id as it is, also where one id begins with the other.

* `Session.keeps_part`, `Session.part_requests`: requests do nothing to an id that none of them goes to, but for
  the sweeps that come with the time they take.
* `Service.owned_of_drops`: an operation that drops the responses of an id drops all of them.
* `Session.Reachable.isolated` says it of every session that operations lead to.
-/

set_option autoImplicit false

namespace Egress

namespace Session

variable {ω : Type}

/-- The session has the part that it would have if nothing but time had passed since `s`. -/
def OnlyPassed (s : Session ω) (id : String) (now : Nat) (w : World ω) : Prop :=
  w.service.part id = (s.world.service.pass s.now now).part id

theorem keeps_part (transport : Transport ω) (s : Session ω) (id : String) :
    Schedule.Keeps (World.workshop transport)
      (fun now w => s.now ≤ now ∧ w.service.OwnIds ∧ s.OnlyPassed id now w)
      fun _ request => request.Plain ∧ request.id ≠ id where
  pass since now w hle h := by
    obtain ⟨hnow, hown, hpart⟩ := h
    refine ⟨Nat.le_trans hnow hle, hown.congr (w.service.pass_alike since now).registry, ?_⟩
    show (w.service.pass since now).part id = (s.world.service.pass s.now now).part id
    rw [Service.part_pass_congr hpart since now, Service.pass_pass _ hnow hle]
  pass_fit _ _ _ _ hfit := hfit
  act now w request h hfit := by
    obtain ⟨hnow, hown, hpart⟩ := h
    have hturns := World.act_turns transport now w request
    exact ⟨hnow, hown.congr hturns.registry, (hturns.part_of_ne hown hfit.1 hfit.2).trans hpart⟩
  act_fit _ _ _ _ _ _ hother := hother
  next now w request duration next h hfit hturn := by
    have hturns := World.act_turns transport now w request
    change (World.act transport now w request).2 = _ at hturn
    rw [hturn] at hturns
    obtain ⟨hid, hplain⟩ := hturns.id_next h.2.1 hfit.1
    exact ⟨hplain, hid ▸ hfit.2⟩

variable {transport : Transport ω} {s : Session ω}

/-- Requests leave the part of an id that none of them goes to as it is at their end without them. -/
theorem part_requests (hown : s.world.service.OwnIds) {calls : List (String × CallOptions)} {id : String}
    (hid : ∀ call ∈ calls, call.1 ≠ id) {fuel : Nat} {answers : List (Nat × Answer)} {after : Session ω}
    (hrun : s.requests transport fuel calls = some (answers, after)) :
    s.now ≤ after.now ∧
      after.world.service.part id = (s.advance (after.now - s.now)).world.service.part id := by
  obtain ⟨outcome, hschedule, heq⟩ := Option.map_eq_some_iff.1 hrun
  cases heq
  have hstart : s.OnlyPassed id s.now s.world := by rw [OnlyPassed, Service.pass_self]
  obtain ⟨-, hnow, -, hpart⟩ := (keeps_part transport s id).run ⟨Nat.le_refl _, hown, hstart⟩
    (fun wake request hmem => by
      obtain ⟨call, hcall, heq⟩ := List.mem_map.1 hmem
      cases heq
      exact ⟨Request.plain_arriving call.1 call.2, hid call hcall⟩) hschedule
  refine ⟨hnow, ?_⟩
  show outcome.shared.service.part id = (s.world.service.pass s.now (s.now + (outcome.now - s.now))).part id
  rw [Nat.add_sub_cancel' hnow]
  exact hpart

end Session

/-- The operation drops the responses kept from the id. -/
def Service.Drops (s : Service) (id : String) : Operation → Prop
  | .clearCache id' => id' = some id
  | .update id' u => id' = id ∧ ∃ updated, s.update id u = .ok updated
  | .unregister id' => id' = id ∧ ∃ s', s.unregister id = .ok s'
  | _ => False

theorem Service.owned_of_drops {s : Service} {id : String} (hid : keySeparator ∉ id.toList) (now : Nat)
    {op : Operation} (hop : s.Drops id op) : (s.operate now op).1.cache.owned id = ∅ := by
  have hdropped := s.cache.owned_invalidateEndpoint_self hid
  cases op with
  | clearCache id' =>
    cases hop
    exact hdropped
  | update id' u =>
    obtain ⟨rfl, updated, hup⟩ := hop
    simp only [operate, hup]
    unfold Service.update at hup
    cases hr : s.registry.update id' u <;> rw [hr] at hup <;> cases hup
    exact hdropped
  | unregister id' =>
    obtain ⟨rfl, s', hun⟩ := hop
    simp only [operate, hun]
    unfold Service.unregister at hun
    cases hr : s.registry.unregister id' <;> rw [hr] at hun <;> cases hun
    exact hdropped
  | _ => exact hop.elim

namespace Session

variable {ω : Type} {transport : Transport ω} {s : Session ω}

/-- The part of the id is what it was, but for the periodic sweeps of the time that went by, if there are
any. -/
def Spares (s after : Session ω) (id : String) : Prop :=
  s.now ≤ after.now ∧
    after.world.service.part id = (s.advance (after.now - s.now)).world.service.part id ∧
    (s.world.service.maintenance = none → after.world.service.part id = s.world.service.part id)

theorem spares_of_requests (hown : s.world.service.OwnIds) {calls : List (String × CallOptions)}
    {id : String} (hid : ∀ call ∈ calls, call.1 ≠ id) {fuel : Nat} {answers : List (Nat × Answer)}
    {after : Session ω} (hrun : s.requests transport fuel calls = some (answers, after)) :
    s.Spares after id := by
  obtain ⟨hnow, hpart⟩ := part_requests hown hid hrun
  refine ⟨hnow, hpart, fun hnone => hpart.trans ?_⟩
  show (s.world.service.pass s.now _).part id = _
  rw [Service.pass, hnone]

/-- In every session that complete operations lead to, operations on an id without separator leave alone what
there is of all other ids: definition, statistics, window, and kept responses with their keys and times. So do
requests to it, whatever they ask for, and checks of its health; they are answered in the end. An operation
that drops the responses of an id leaves none that a request to it has stored, with whatever options. -/
theorem Reachable.isolated (h : Reachable transport s) {id : String} (hid : keySeparator ∉ id.toList) :
    (∀ op, op.On id → ∀ other, id ≠ other →
      (s.operate op).1.world.service.part other = s.world.service.part other) ∧
    (∀ options, ∃ answer after enough,
      (∀ fuel, enough ≤ fuel → s.request transport fuel id options = some (answer, after)) ∧
      ∀ other, id ≠ other → s.Spares after other) ∧
    ((∀ fuel, s.check transport fuel id = .error (.registry (.notFound id))) ∨
      ∃ report after enough,
        (∀ fuel, enough ≤ fuel → s.check transport fuel id = .ok (some (report, after))) ∧
        ∀ other, id ≠ other → s.Spares after other) ∧
    ∀ op, s.world.service.Drops id op → ∀ options,
      (s.operate op).1.world.service.cache.entries.get?
        (s.world.service.strategy.key id options) = none := by
  have hown := h.tidy.own
  have hspares : ∀ {options fuel answers after},
      s.requests transport fuel [(id, options)] = some (answers, after) →
      ∀ other, id ≠ other → s.Spares after other := fun hrun other hne =>
    spares_of_requests hown (fun call hcall => by
      rw [List.mem_singleton.1 hcall]
      exact hne) hrun
  refine ⟨fun op hop other hne => ?_, fun options => ?_, ?_, fun op hop options => ?_⟩
  · have hplain : op.Plain := by
      cases op with
      | clearCache id' =>
        cases hop
        exact hid
      | _ => trivial
    exact Service.part_operate_of_ne hown hplain hop hne
  · obtain ⟨turns, t, w, -, answer, -, hrequests, -⟩ := exists_request transport s hown id options
    exact ⟨answer, ⟨t, w⟩, turns, fun fuel hfuel => request_eq (hrequests fuel hfuel),
      hspares (hrequests turns (Nat.le_refl turns))⟩
  · unfold check
    cases s.world.service.registry.contains id with
    | false => exact .inl fun fuel => rfl
    | true =>
      obtain ⟨turns, t, w, -, answer, -, hrequests, -⟩ := exists_request transport s hown id .fresh
      refine .inr ⟨.ofResult id ((t - s.now) * nanosPerMilli) answer, ⟨t, w⟩, turns, fun fuel hfuel => ?_,
        hspares (hrequests turns (Nat.le_refl turns))⟩
      simp [checks, hrequests fuel hfuel]
  · have hnone := Service.owned_of_drops hid s.now hop
    have howner := Cache.owner_key s.world.service.strategy options hid
    have hget := Cache.get?_owned (s.operate op).1.world.service.cache id
      (s.world.service.strategy.key id options)
    rw [if_pos howner] at hget
    rw [← hget]
    show ((s.world.service.operate s.now op).1.cache.owned id).get? _ = none
    rw [hnone]
    rfl

/-- A session with a response kept from each of two endpoints, the id of one of which begins with that of the
other. -/
def bothAsked : Option (List (List (Nat × Answer)) × Session Unit) :=
  (start (.create .request none (.create 1 0)) ()).play .steady 9
    [.operate (.register .keeping), .operate (.register { Endpoint.keeping with id := "ab" }),
      .requests [("a", .plain), ("ab", .plain)]]

/-- Removing the one takes its response and leaves that of the other. -/
theorem Reachable.isolated_bothAsked :
    ∃ answers s, bothAsked = some (answers, s) ∧ s.world.service.cache.size = 2 ∧
      ((s.operate (.unregister "a")).1.world.service.part "ab" = s.world.service.part "ab") ∧
      ((s.world.service.part "ab").responses.size = 1) ∧
      (s.operate (.unregister "a")).1.world.service.cache.entries.get? "a" = none := by
  have hsome : bothAsked.isSome = true := by rfl
  obtain ⟨⟨answers, s⟩, hplay⟩ := Option.isSome_iff_exists.1 hsome
  have hs : s = (bothAsked.get hsome).2 := by simp only [hplay, Option.get_some]
  have hreachable : Reachable .steady s := (Reachable.start .request none (.create 1 0) ()).play hplay
  have hid : keySeparator ∉ "a".toList := by decide
  obtain ⟨hoperate, -, -, hdrops⟩ := hreachable.isolated hid
  have hunregister : ∃ s', s.world.service.unregister "a" = .ok s' := by
    rw [hs]
    exact ⟨_, rfl⟩
  have hnone := hdrops (.unregister "a") ⟨rfl, hunregister⟩ .plain
  have hkey : s.world.service.strategy.key "a" .plain = "a" := by
    rw [hs]
    rfl
  rw [hkey] at hnone
  exact ⟨answers, s, hplay, by rw [hs]; rfl, hoperate (.unregister "a") rfl "ab" (by decide),
    by rw [hs]; rfl, hnone⟩

end Session

end Egress
