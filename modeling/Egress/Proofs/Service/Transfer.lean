import Egress.Proofs.Endpoint.RoundTrip
import Egress.Proofs.Service.Answers
import Egress.Proofs.Service.Traffic

/-!
# A document brings all endpoints

* `Registry.Valid` is what holds of every registry that operations lead to (`Traffic.valid_run`), whatever
  requests are in flight: endpoints are listed under their own ids, and each of them can be served.
* `Document.read_render`: a document is read as it was written.
* `Service.importText_of_new`: endpoints with different ids are all registered. The endpoints of one
  registry are such (`Registry.Valid.ofList_reread`).
* `Traffic.importText_render` puts these together.

Registered endpoints have domain names in ASCII (`Url.parseHost`), and so have those of the document.
-/

set_option autoImplicit false

namespace Egress

namespace Service

variable {s s' : Service}

theorem registry_register {e : Endpoint} (h : s.register e = .ok s') :
    s.registry.register e = .ok s'.registry := by
  unfold register at h
  split at h
  · cases h
  · next hreg =>
    cases h
    exact hreg

/-- Every operation keeps the registry valid, whether it succeeds or not. -/
theorem valid_operate (h : s.registry.Valid) (now : Nat) (op : Operation) :
    (s.operate now op).1.registry.Valid := by
  cases op with
  | register e =>
    simp only [operate]
    split
    · exact h
    · next hreg => exact h.register (registry_register hreg)
  | update id u =>
    simp only [operate, update]
    cases hup : s.registry.update id u with
    | error error => exact h
    | ok updated => exact h.update hup
  | unregister id =>
    simp only [operate, unregister]
    cases hun : s.registry.unregister id with
    | error error => exact h
    | ok removed => exact h.unregister hun
  | importText text =>
    obtain ⟨-, heq⟩ | ⟨-, es, told, hflaw, hafter, -⟩ := importText_cases s text
    · simp only [operate, heq]
      exact h
    · exact hafter.valid hflaw
  | clearCache | setToken | sweep | startMaintenance | stopMaintenance => exact h

end Service

namespace Traffic

variable {ω : Type} {t : Traffic ω}

theorem valid_step (h : t.world.service.registry.Valid) (transport : Transport ω) (move : Move) :
    (t.step transport move).world.service.registry.Valid := by
  cases move with
  | operate op => exact Service.valid_operate h t.now op
  | arrive id options => exact h
  | turn flight =>
    unfold step
    dsimp only
    split
    · next wake request _ =>
      split
      · have hturns := World.act_turns transport t.now t.world request
        show (World.act transport t.now t.world request).1.service.registry.Valid
        rw [hturns.registry]
        exact h
      · exact h
    · exact h
  | pass ms =>
    have halike := t.world.service.pass_alike t.now (t.now + ms)
    show (t.world.service.pass t.now (t.now + ms)).registry.Valid
    rw [halike.registry]
    exact h

theorem valid_run (h : t.world.service.registry.Valid) (transport : Transport ω) (moves : List Move) :
    (t.run transport moves).world.service.registry.Valid := by
  induction moves generalizing t with
  | nil => exact h
  | cons move moves ih => exact ih (valid_step h transport move)

end Traffic

/-! ## Documents -/

namespace Document

/-- The document as it is read back. -/
def reread (d : Document) : Document := { d with endpoints := d.endpoints.map Endpoint.reread }

variable {d : Document}

theorem decode_toJson (hfits : ∀ e ∈ d.endpoints, e.Fits) (hportable : ∀ e ∈ d.endpoints, e.Portable)
    (hat : ∀ t ∈ d.exportedAt, t.Plain) : decode .json (Json.Tree.ofJson d.toJson) = .ok d.reread := by
  have hendpoints : Json.decodeList Endpoint.decode .json
      (Json.Tree.ofJson (.array (d.endpoints.map Endpoint.toJson))) = .ok d.reread.endpoints :=
    Json.decodeList_map fun e he => Endpoint.decode_toJson (hfits e he) (hportable e he)
  refine Json.readRecord_ofFields ["endpoints", "exportedAt"] (by simp) ?_ (by decide) (by decide) ?_
  · exact (Json.keys_optionalField ..).cons_cons "endpoints"
  · refine .member rfl rfl hendpoints ?_
    refine .optionalMember (fun t => .string t.format) d.exportedAt rfl rfl
      (Json.get?_optionalField ..) (fun t ht => ?_) rfl (.nil _)
    refine Json.decodeOption_of_ok nofun ?_
    rw [Json.Tree.ofJson, Json.decodeTimestamp, Timestamp.parse_format (hat t ht)]
    rfl

theorem readable_toJson (hfits : ∀ e ∈ d.endpoints, e.Fits)
    (hportable : ∀ e ∈ d.endpoints, e.Portable) : d.toJson.Readable 103 := by
  have hendpoints : (Json.array (d.endpoints.map Endpoint.toJson)).Readable 102 := by
    refine .array fun j hj => ?_
    obtain ⟨e, he, rfl⟩ := List.mem_map.1 hj
    exact Endpoint.readable_toJson (hfits e he) (hportable e he)
  refine .ofFields ?_
  simp only [List.forall_mem_cons, Json.forall_mem_optionalField]
  exact ⟨hendpoints, fun _ _ => .string _⟩

/-- A document is read as it was written. -/
theorem read_render (hfits : ∀ e ∈ d.endpoints, e.Fits) (hportable : ∀ e ∈ d.endpoints, e.Portable)
    (hat : ∀ t ∈ d.exportedAt, t.Plain) : read d.render = .ok d.reread := by
  have hreadable : d.toJson.Readable Json.Tree.depthLimit :=
    (readable_toJson hfits hportable).mono (by decide)
  rw [read, Json.decodeText, render, Json.Tree.read?_pretty hreadable]
  dsimp only
  rw [decode_toJson hfits hportable hat]

end Document

/-! ## Imports -/

namespace Service

theorem importText_of_new {text : String} {d : Document} (hread : Document.read text = .ok d)
    (hflaw : ∀ e ∈ d.endpoints, e.flaw? = none) (hdistinct : (d.endpoints.map (·.id)).Nodup)
    (s : Service) :
    ∃ after, s.importText text = (.ok d.endpoints.length, after) ∧
      after.registry.endpoints = .ofList (d.endpoints.map fun e => (e.id, e)) := by
  obtain ⟨after, himport, hafter⟩ := importText_of_nodup hread hflaw hdistinct s
  exact ⟨after, himport, hafter.endpoints hdistinct⟩

end Service

namespace Registry

variable {r : Registry}

/-- The endpoints that are read back are listed as the endpoints of the registry. -/
theorem Valid.ofList_reread (h : r.Valid) :
    Dict.ofList ((r.list.map Endpoint.reread).map fun e => (e.id, e)) =
      r.endpoints.map Endpoint.reread := by
  have hpairs : (r.list.map Endpoint.reread).map (fun e => (e.id, e)) =
      (r.endpoints.map Endpoint.reread).entries := by
    rw [list, Dict.values, Dict.map, List.map_map, List.map_map]
    refine List.map_congr_left fun m hm => ?_
    have hid := (h m.1 m.2 (Dict.get?_eq_some_iff.2 hm)).1
    exact congrArg (·, m.2.reread) hid
  rw [hpairs, Dict.ofList_entries]

end Registry

namespace Traffic

variable {ω : Type}

/-- The endpoints of a service are written to a document and read into another service, in whatever states
the two are. All of them come back, as many as are counted, each under its id. A body that is a JSON string
comes back as a text, everything else as it was, and all calls are the same. -/
theorem importText_render (transport : Transport ω) (strategy : KeyStrategy) (tokens : Tokens)
    (events : Channel) (state : ω) (moves : List Move) :
    let s := ((start strategy tokens events state).run transport moves).world.service
    (∀ e ∈ s.registry.list, e.Fits) → (∀ e ∈ s.registry.list, e.Portable) →
    ∀ exportedAt : Option Timestamp, (∀ t ∈ exportedAt, t.Plain) → ∀ target : Service,
      ∃ after, target.importText ({ s.document with exportedAt } : Document).render =
          (.ok s.registry.list.length, after) ∧
        after.registry.list = s.registry.list.map Endpoint.reread ∧
        ∀ id e, s.registry.get? id = some e → after.registry.get? id = some e.reread ∧
          ∀ tokens options, Call.prepare tokens e.reread options = Call.prepare tokens e options := by
  intro s hfits hportable exportedAt hat target
  have hvalid : s.registry.Valid := valid_run (t := start strategy tokens events state)
    Registry.valid_empty transport moves
  let d : Document := { s.document with exportedAt }
  have hread : Document.read d.render = .ok d.reread := Document.read_render hfits hportable hat
  have hflaw : ∀ e ∈ d.reread.endpoints, e.flaw? = none := by
    intro e he
    obtain ⟨old, hold, rfl⟩ := List.mem_map.1 he
    have hflaw := hvalid.flaw?_of_mem hold
    exact hflaw
  have hdistinct : (d.reread.endpoints.map (·.id)).Nodup := by
    have hids : d.reread.endpoints.map (·.id) = s.registry.ids := by
      rw [← hvalid.map_id]
      exact List.map_map
    rw [hids]
    exact s.registry.endpoints.ascending.nodup
  obtain ⟨after, himport, hendpoints⟩ := target.importText_of_new hread hflaw hdistinct
  have hafter : after.registry.endpoints = s.registry.endpoints.map Endpoint.reread :=
    hendpoints.trans hvalid.ofList_reread
  refine ⟨after, ?_, ?_, fun id e he => ⟨?_, fun tokens options => e.prepare_reread tokens options⟩⟩
  · rw [himport]
    exact congrArg (fun n => (Except.ok n, after)) (List.length_map ..)
  · rw [Registry.list, hafter]
    simp [Dict.map, Dict.values, Registry.list]
  · rw [Registry.get?, hafter]
    have hmem := Dict.get?_eq_some_iff.1 he
    exact Dict.get?_eq_some_iff.2 (List.mem_map_of_mem (f := fun m => (m.1, m.2.reread)) hmem)

/-- An endpoint with a JSON string for a body and a token that expires in the last second of 9999. -/
def expiring : Endpoint :=
  { Endpoint.plain "ü" "a \"b\"" "http://h/" with
    method := .post
    headers := .ofList [("b", "\n"), ("a", "")]
    body := some (.json (.string "text"))
    auth := .oauth2 ⟨some "c", none, ["r", "w"]⟩ none (some ⟨253402300799, 999999999⟩)
    cache := some ⟨true, 5, .sessionStore⟩
    retryPolicy := some ⟨3, .linear, 10, none, [503]⟩ }

/-- It replaces what another service had. -/
theorem importText_render_expiring :
    ∃ after, ((start .request none (.create 1 0) ()).run .steady
        [.operate (.register .keeping)]).world.service.importText
          (⟨[expiring], some ⟨0, 0⟩⟩ : Document).render = (.ok 1, after) ∧
      after.registry.list = [{ expiring with body := some (.text "text") }] ∧
      ∀ tokens options, Call.prepare tokens { expiring with body := some (.text "text") } options =
        Call.prepare tokens expiring options := by
  have hlist : ((start .request none (.create 1 0) ()).run .steady
      [.operate (.register expiring)]).world.service.registry.list = [expiring] := by rfl
  have hfits : expiring.Fits := by
    refine ⟨by decide, nofun, nofun, fun c hc => ?_, fun p hp => ?_⟩
    · cases hc
      exact ⟨by decide⟩
    · cases hp
      exact ⟨by decide, by decide, nofun, by decide⟩
  have hportable : expiring.Portable := by
    refine ⟨fun b hb => ?_, fun t ht => ?_⟩
    · cases hb
      exact ⟨⟨trivial, .string "text"⟩, nofun⟩
    · cases ht
      exact ⟨by decide, by decide⟩
  obtain ⟨after, himport, hafter, hcalls⟩ := importText_render .steady .request none (.create 1 0) ()
    [.operate (.register expiring)] (by simpa only [hlist, List.forall_mem_singleton] using hfits)
    (by simpa only [hlist, List.forall_mem_singleton] using hportable) (some ⟨0, 0⟩)
    (fun t ht => by cases ht; exact ⟨by decide, by decide⟩)
    ((start .request none (.create 1 0) ()).run .steady [.operate (.register .keeping)]).world.service
  refine ⟨after, ?_, ?_, (hcalls "ü" expiring (by rfl)).2⟩
  · rw [Service.document, hlist] at himport
    exact himport
  · rw [hafter, hlist]
    rfl

end Traffic

end Egress
