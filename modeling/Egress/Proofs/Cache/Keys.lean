import Egress.Call.Basic
import Egress.Proofs.Cache.Contents
import Egress.Proofs.Call.Body

/-!
# Calls of one key

A key by request lists query, headers and body in one text without any escapes.

* `chain_inj`: the sections of the text can be told apart where no section holds the mark of a later
  one behind a bar.
* `pairsText_inj`: so can pairs whose names hold neither `=` nor `&` and whose values hold no `&`.
* `same_call_of_key_eq`: between calls of one key that are `Separable` in this way, URL and headers
  agree, and the bodies agree unless they are `Mistaken` for each other, which `bodyText` permits.
-/

set_option autoImplicit false

namespace Egress

/-! ## Sections -/

namespace KeyStrategy

/-- A bar before the text, if there is one. -/
def behindBar : List Char → List Char
  | [] => []
  | c :: cs => '|' :: c :: cs

theorem behindBar_inj {cs cs' : List Char} (h : behindBar cs = behindBar cs') : cs = cs' := by
  cases cs <;> cases cs' <;> simp_all [behindBar]

theorem head?_behindBar (cs : List Char) : ∀ c ∈ (behindBar cs).head?, c = '|' := by
  cases cs <;> simp [behindBar]

/-- Sections, each behind its mark, with bars between those that are there. -/
def chain : List (Char × Option (List Char)) → List Char
  | [] => []
  | (_, none) :: sections => chain sections
  | (mark, some text) :: sections => mark :: ':' :: (text ++ behindBar (chain sections))

/-- No section holds the mark of a later one behind a bar. -/
def Barred (sections : List (Char × Option (List Char))) : Prop :=
  sections.Pairwise fun s later => ∀ text ∈ s.2, ¬['|', later.1, ':'] <:+: text

theorem Barred.free {mark : Char} {text : List Char} {sections : List (Char × Option (List Char))}
    (h : Barred ((mark, some text) :: sections)) :
    ∀ m ∈ sections.map (·.1), ¬['|', m, ':'] <:+: text := by
  intro m hm
  obtain ⟨later, hl, rfl⟩ := List.mem_map.1 hm
  exact (List.pairwise_cons.1 h).1 later hl text rfl

theorem chain_begins (sections : List (Char × Option (List Char))) :
    chain sections = [] ∨
      ∃ mark ∈ sections.map (·.1), ∃ cs, chain sections = mark :: ':' :: cs := by
  induction sections with
  | nil => exact .inl rfl
  | cons s sections ih =>
    obtain ⟨mark, _ | text⟩ := s
    · rcases ih with h | ⟨mark, hm, h⟩
      · exact .inl h
      · exact .inr ⟨mark, List.mem_cons_of_mem _ hm, h⟩
    · exact .inr ⟨_, List.mem_cons_self, _, rfl⟩

/-- A section that goes on where one of the same text ends holds a later mark. -/
theorem infix_of_behindBar_eq {sections : List (Char × Option (List Char))}
    (text : List Char) {more rest : List Char} (hmarks : '|' ∉ sections.map (·.1))
    (hmore : more ≠ []) (h : behindBar (chain sections) = more ++ behindBar rest) :
    ∃ mark ∈ sections.map (·.1), ['|', mark, ':'] <:+: text ++ more := by
  rcases chain_begins sections with hnil | ⟨mark, hm, cs, hcs⟩
  · rw [hnil] at h
    exact absurd (List.append_eq_nil_iff.1 h.symm).1 hmore
  · refine ⟨mark, hm, ?_⟩
    have hbar := head?_behindBar rest
    rw [hcs, behindBar] at h
    rcases more with _ | ⟨c₁, _ | ⟨c₂, _ | ⟨c₃, more⟩⟩⟩
    · exact absurd rfl hmore
    · simp only [List.cons_append, List.nil_append, List.cons.injEq] at h
      rw [← h.2] at hbar
      exact absurd (hbar mark rfl ▸ hm) hmarks
    · simp only [List.cons_append, List.nil_append, List.cons.injEq] at h
      rw [← h.2.2] at hbar
      exact absurd (hbar ':' rfl) (by decide)
    · simp only [List.cons_append, List.cons.injEq] at h
      obtain ⟨rfl, rfl, rfl, -⟩ := h
      exact ⟨text, more, by simp⟩

theorem eq_nil_of_barred {sections : List (Char × Option (List Char))} (text : List Char)
    {more rest : List Char} (hmarks : '|' ∉ sections.map (·.1))
    (hfree : ∀ mark ∈ sections.map (·.1), ¬['|', mark, ':'] <:+: text ++ more)
    (h : behindBar (chain sections) = more ++ behindBar rest) : more = [] := by
  by_contra hmore
  obtain ⟨mark, hm, hin⟩ := infix_of_behindBar_eq text hmarks hmore h
  exact hfree mark hm hin

/-- A text begins with the mark of one of its sections. -/
theorem chain_ne_cons {sections : List (Char × Option (List Char))} {mark : Char}
    (hnot : mark ∉ sections.map (·.1)) (cs : List Char) : chain sections ≠ mark :: cs := by
  intro h
  rcases chain_begins sections with hnil | ⟨mark', hm, cs', hcs⟩
  · rw [hnil] at h
    cases h
  · rw [hcs] at h
    cases h
    exact hnot hm

/-- The text of barred sections determines them. -/
theorem chain_inj {sections sections' : List (Char × Option (List Char))}
    (hbars : '|' ∉ sections.map (·.1)) (hnodup : (sections.map (·.1)).Nodup)
    (hsame : sections.map (·.1) = sections'.map (·.1))
    (hbarred : Barred sections) (hbarred' : Barred sections')
    (h : chain sections = chain sections') : sections = sections' := by
  induction sections generalizing sections' with
  | nil => rw [List.map_nil, eq_comm, List.map_eq_nil_iff] at hsame; exact hsame.symm
  | cons s sections ih =>
    cases sections' with
    | nil => cases hsame
    | cons s' sections' =>
      obtain ⟨mark, text?⟩ := s
      obtain ⟨mark', text?'⟩ := s'
      simp only [List.map_cons, List.cons.injEq] at hsame
      obtain ⟨rfl, hlater⟩ := hsame
      obtain ⟨hnot, hlaterNodup⟩ := List.nodup_cons.1 hnodup
      have hlaterBarred : Barred sections := hbarred.of_cons
      have hlaterBarred' : Barred sections' := hbarred'.of_cons
      rw [List.map_cons, List.mem_cons, not_or] at hbars
      have hnot' : mark ∉ sections'.map (·.1) := hlater ▸ hnot
      have hbars' : '|' ∉ sections'.map (·.1) := hlater ▸ hbars.2
      have hrec : chain sections = chain sections' → sections = sections' :=
        ih hbars.2 hlaterNodup hlater hlaterBarred hlaterBarred'
      rcases text? with _ | text <;> rcases text?' with _ | text'
      · rw [hrec h]
      · exact absurd h (chain_ne_cons hnot _)
      · exact absurd h.symm (chain_ne_cons hnot' _)
      · simp only [chain, List.cons.injEq, true_and] at h
        have hfree : ∀ m ∈ sections'.map (·.1), ¬['|', m, ':'] <:+: text := by
          rw [← hlater]
          exact hbarred.free
        have hfree' : ∀ m ∈ sections.map (·.1), ¬['|', m, ':'] <:+: text' := by
          rw [hlater]
          exact hbarred'.free
        -- the longer text would hold a later mark where the shorter one ends
        rcases List.append_eq_append_iff.1 h with ⟨more, rfl, hrest⟩ | ⟨more, rfl, hrest⟩
        · obtain rfl := eq_nil_of_barred text hbars.2 hfree' hrest
          rw [List.append_nil, hrec (behindBar_inj hrest)]
        · obtain rfl := eq_nil_of_barred text' hbars' hfree hrest
          rw [List.append_nil, hrec (behindBar_inj hrest.symm)]

/-! ## Pairs -/

/-- No name holds `=` or `&`, and no value holds `&`. -/
def Apart (d : Dict String) : Prop :=
  ∀ e ∈ d.entries, '=' ∉ e.1.toList ∧ '&' ∉ e.1.toList ∧ '&' ∉ e.2.toList

theorem pair_inj {e e' : String × String} (h : '=' ∉ e.1.toList) (h' : '=' ∉ e'.1.toList)
    (heq : e.1 ++ "=" ++ e.2 = e'.1 ++ "=" ++ e'.2) : e = e' := by
  have htext : e.1.toList ++ '=' :: e.2.toList = e'.1.toList ++ '=' :: e'.2.toList := by
    simpa using congrArg String.toList heq
  obtain ⟨hname, hvalue⟩ := cut_inj h h' htext
  exact Prod.ext (String.toList_inj.1 hname) (String.toList_inj.1 hvalue)

theorem toList_pairsText (d : Dict String) :
    (pairsText d).toList =
      ['&'].intercalate (d.entries.map fun e => (e.1 ++ "=" ++ e.2).toList) := by
  simp [pairsText, String.toList_intercalate, Function.comp_def]

theorem pairsText_eq_empty {d : Dict String} (h : (pairsText d).toList = []) : d.entries = [] := by
  rw [toList_pairsText] at h
  rcases he : d.entries with _ | ⟨e, _ | ⟨e', rest⟩⟩
  · rfl
  · simp [he] at h
  · simp [he, List.intercalate] at h

theorem entries_inj {entries entries' : List (String × String)}
    (h : ∀ e ∈ entries, '=' ∉ e.1.toList) (h' : ∀ e ∈ entries', '=' ∉ e.1.toList)
    (heq : entries.map (fun e => (e.1 ++ "=" ++ e.2).toList) =
      entries'.map fun e => (e.1 ++ "=" ++ e.2).toList) : entries = entries' := by
  induction entries generalizing entries' with
  | nil => rw [List.map_nil, eq_comm, List.map_eq_nil_iff] at heq; exact heq.symm
  | cons e entries ih =>
    cases entries' with
    | nil => cases heq
    | cons e' entries' =>
      simp only [List.map_cons, List.cons.injEq] at heq
      rw [pair_inj (h e List.mem_cons_self) (h' e' List.mem_cons_self) (String.toList_inj.1 heq.1),
        ih (fun x hx => h x (List.mem_cons_of_mem _ hx))
          (fun x hx => h' x (List.mem_cons_of_mem _ hx)) heq.2]

/-- The text of pairs that are apart determines them. -/
theorem pairsText_inj {d d' : Dict String} (hd : Apart d) (hd' : Apart d')
    (h : (pairsText d).toList = (pairsText d').toList) : d = d' := by
  have hsplit : ∀ d : Dict String, Apart d → d.entries ≠ [] →
      (pairsText d).toList.splitOn '&' = d.entries.map fun e => (e.1 ++ "=" ++ e.2).toList := by
    intro d hd hne
    rw [toList_pairsText]
    refine List.splitOn_intercalate '&' (fun text ht => ?_) (by simpa using hne)
    obtain ⟨e, he, rfl⟩ := List.mem_map.1 ht
    have := hd e he
    simp [this.2.1, this.2.2]
  have hentries : d.entries = d'.entries := by
    by_cases hne : d.entries = []
    · rw [hne]
      refine (pairsText_eq_empty (d := d') ?_).symm
      rw [← h, toList_pairsText, hne]
      rfl
    · have hne' : d'.entries ≠ [] := fun he => hne (pairsText_eq_empty (d := d) (by
        rw [h, toList_pairsText, he]; rfl))
      have htexts := hsplit d hd hne
      rw [h, hsplit d' hd' hne'] at htexts
      exact entries_inj (fun e he => (hd e he).1) (fun e he => (hd' e he).1) htexts.symm
  cases d
  cases d'
  cases hentries
  rfl

/-! ## Fingerprints -/

/-- The headers of a call as they stand in a key. -/
def headerPairs (options : CallOptions) : Dict String :=
  Dict.ofList (options.headers.entries.map fun h => (Text.lower h.1, h.2))

/-- The sections of a fingerprint. -/
def sections (options : CallOptions) : List (Char × Option (List Char)) :=
  [('q', if options.query.isEmpty then none else some (pairsText options.query).toList),
    ('h', if options.headers.isEmpty then none else some (pairsText (headerPairs options)).toList),
    ('b', options.body.map fun body => (bodyText body).toList)]

theorem toList_fingerprint (options : CallOptions) :
    (fingerprint options).toList = chain (sections options) := by
  unfold fingerprint parts sections
  rw [String.toList_intercalate]
  cases options.query.isEmpty <;> cases options.headers.isEmpty <;> cases options.body <;>
    simp [chain, behindBar, headerPairs, List.intercalate]

/-- Names and values of the call hold nothing that a key reads as its own. -/
structure Separable (options : CallOptions) : Prop where
  query : Apart options.query
  headers : Apart (headerPairs options)
  queryBarred : ¬['|', 'h', ':'] <:+: (pairsText options.query).toList ∧
    ¬['|', 'b', ':'] <:+: (pairsText options.query).toList
  headersBarred : ¬['|', 'b', ':'] <:+: (pairsText (headerPairs options)).toList

theorem Separable.barred {options : CallOptions} (h : Separable options) :
    Barred (sections options) := by
  obtain ⟨hq, hb⟩ := h.queryBarred
  have hh := h.headersBarred
  unfold Barred sections
  cases options.query.isEmpty <;> cases options.headers.isEmpty <;> simp [hq, hb, hh]

/-- A key with a fingerprint is longer than the id. -/
theorem append_separator_ne (id text : String) : id ++ String.singleton keySeparator ++ text ≠ id := by
  intro heq
  have := congrArg (fun s => s.toList.length) heq
  simp at this

theorem key_eq_id_iff {id : String} {options : CallOptions} :
    key .request id options = id ↔ fingerprint options = "" := by
  simp only [key]
  split
  · next he => exact iff_of_true rfl (String.isEmpty_iff.1 he)
  · next he => exact iff_of_false (append_separator_ne id _) fun h => he (String.isEmpty_iff.2 h)

theorem fingerprint_eq_of_key_eq {id : String} {options options' : CallOptions}
    (h : key .request id options = key .request id options') :
    fingerprint options = fingerprint options' := by
  simp only [key] at h
  split at h <;> split at h
  · next he he' => rw [String.isEmpty_iff.1 he, String.isEmpty_iff.1 he']
  · exact absurd h.symm (append_separator_ne id _)
  · exact absurd h (append_separator_ne id _)
  · simpa [String.append_assoc, String.append_right_inj] using h

/-- The key of separable options determines query, headers and the text of the body. -/
theorem eq_of_key_eq {id : String} {options options' : CallOptions} (ho : Separable options)
    (ho' : Separable options') (h : key .request id options = key .request id options') :
    options.query = options'.query ∧ headerPairs options = headerPairs options' ∧
      options.body.map bodyText = options'.body.map bodyText := by
  have hempty : ∀ d : Dict String, d.isEmpty = true → d = Dict.empty := by
    rintro ⟨_ | ⟨e, rest⟩, _⟩ h
    · rfl
    · cases h
  have hchain : chain (sections options) = chain (sections options') := by
    rw [← toList_fingerprint, ← toList_fingerprint, fingerprint_eq_of_key_eq h]
  have hsections := chain_inj (by simp [sections]) (by simp [sections]) (by simp [sections])
    ho.barred ho'.barred hchain
  simp only [sections, List.cons.injEq, Prod.mk.injEq, true_and, and_true] at hsections
  obtain ⟨hquery, hheaders, hbody⟩ := hsections
  refine ⟨?_, ?_, ?_⟩
  · split at hquery <;> split at hquery
    · next he he' => rw [hempty _ he, hempty _ he']
    · cases hquery
    · cases hquery
    · exact pairsText_inj ho.query ho'.query (Option.some.inj hquery)
  · split at hheaders <;> split at hheaders
    · next he he' => rw [headerPairs, headerPairs, hempty _ he, hempty _ he']
    · cases hheaders
    · cases hheaders
    · exact pairsText_inj ho.headers ho'.headers (Option.some.inj hheaders)
  · cases hb : options.body <;> cases hb' : options'.body <;>
      simp only [hb, hb', Option.map_none, Option.map_some, reduceCtorEq, Option.some.injEq,
        String.toList_inj] at hbody ⊢
    exact hbody

end KeyStrategy

/-! ## Calls -/

theorem Endpoint.target_congr (e : Endpoint) {options options' : CallOptions}
    (h : options.query = options'.query) : e.target options = e.target options' := by
  unfold target parameters
  rw [h]

theorem Endpoint.callBody_some (e : Endpoint) {options : CallOptions} {b : Body}
    (h : options.body = some b) :
    e.callBody options = if e.method.allowsBody then some (Body.laidOver e.body b) else none := by
  unfold callBody
  rw [h, Body.merged_some]
  cases e.method.allowsBody <;> rfl

/-- Separable calls of one key go to one URL with the same headers, and with the same body unless the
method carries one and the two are mistaken for each other. -/
theorem same_call_of_key_eq (e : Endpoint) {options options' : CallOptions}
    (ho : KeyStrategy.Separable options) (ho' : KeyStrategy.Separable options')
    (hbase : ∀ b ∈ e.body, b.Ascending) (hb : ∀ b ∈ options.body, b.Ascending)
    (hb' : ∀ b ∈ options'.body, b.Ascending)
    (h : KeyStrategy.key .request e.id options = KeyStrategy.key .request e.id options') :
    e.target options = e.target options' ∧ e.mergedHeaders options = e.mergedHeaders options' ∧
      ((e.callBody options).map Body.encode = (e.callBody options').map Body.encode ↔
        ¬(e.method.allowsBody = true ∧
          ∃ b ∈ options.body, ∃ b' ∈ options'.body, Body.Mistaken e.body b b')) := by
  obtain ⟨hquery, hheaders, hbody⟩ := KeyStrategy.eq_of_key_eq ho ho' h
  refine ⟨e.target_congr hquery, Dict.insertMany_congr _ hheaders, ?_⟩
  cases hbo : options.body with
  | none =>
    rw [hbo, Option.map_none, eq_comm, Option.map_eq_none_iff] at hbody
    refine iff_of_true ?_ (by simp)
    unfold Endpoint.callBody
    rw [hbo, hbody]
  | some b =>
    rw [hbo, Option.map_some, eq_comm, Option.map_eq_some_iff] at hbody
    obtain ⟨b', hbo', htext⟩ := hbody
    have hiff := Body.encode_laidOver_iff hbase (hb b hbo) (hb' b' hbo') htext.symm
    rw [e.callBody_some hbo, e.callBody_some hbo', hbo']
    cases e.method.allowsBody
    · exact iff_of_true rfl (by simp)
    · simpa using hiff

/-- An object and its text, with one header in two spellings: nothing is added to the object, so that
both are sent alike. -/
theorem same_call_of_key_eq_object_and_text :
    let e : Endpoint :=
      { Endpoint.plain "lamp" "Lamp" "http://h/?on=0" with
        method := .post, body := some (.json (.object [("on", .bool true)])) }
    let options : CallOptions :=
      ⟨Dict.ofList [("on", "1|2")], Dict.ofList [("X-Trace", "a=b")],
        some (.json (.object [("on", .bool false)])), none, false⟩
    let options' : CallOptions :=
      ⟨Dict.ofList [("on", "1|2")], Dict.ofList [("x-trace", "a=b")],
        some (.text "\x7b\"on\":false\x7d"), some 5, true⟩
    KeyStrategy.Separable options ∧ KeyStrategy.Separable options' ∧
      KeyStrategy.key .request e.id options = KeyStrategy.key .request e.id options' ∧
      e.target options = e.target options' ∧ e.mergedHeaders options = e.mergedHeaders options' ∧
      (e.callBody options).map Body.encode = (e.callBody options').map Body.encode := by
  intro e options options'
  have ho : KeyStrategy.Separable options :=
    ⟨by unfold KeyStrategy.Apart; decide, by unfold KeyStrategy.Apart; decide +kernel,
      by decide +kernel, by decide +kernel⟩
  have ho' : KeyStrategy.Separable options' :=
    ⟨by unfold KeyStrategy.Apart; decide, by unfold KeyStrategy.Apart; decide +kernel,
      by decide +kernel, by decide +kernel⟩
  have hkey : KeyStrategy.key .request e.id options = KeyStrategy.key .request e.id options' := by
    decide
  have hsent := same_call_of_key_eq e ho ho'
    (by simp [e, Body.Ascending, Fields.Ascending])
    (by simp [options, Body.Ascending, Fields.Ascending]) (by simp [options', Body.Ascending]) hkey
  refine ⟨ho, ho', hkey, hsent.1, hsent.2.1, hsent.2.2.2 ?_⟩
  rintro ⟨-, b, hb, b', hb', hmistaken⟩
  obtain rfl := Option.some.inj hb
  obtain rfl := Option.some.inj hb'
  obtain ⟨below, hbelow, m, hm, hnone⟩ := hmistaken
  cases hbelow
  obtain rfl := List.mem_singleton.1 hm
  cases hnone

/-- Calls of one key that are sent differently: a value may hold what stands between two pairs or two
sections, and a text may be that of a JSON string. -/
theorem different_calls_of_one_key :
    let e : Endpoint := { Endpoint.plain "e" "E" "http://h/" with method := .post }
    let query (pairs : List (String × String)) : CallOptions :=
      ⟨Dict.ofList pairs, ∅, none, none, false⟩
    let headers (pairs : List (String × String)) : CallOptions :=
      ⟨∅, Dict.ofList pairs, none, none, false⟩
    let both : CallOptions := ⟨Dict.ofList [("a", "1")], Dict.ofList [("b", "2")], none, none, false⟩
    let body (b : Body) : CallOptions := ⟨∅, ∅, some b, none, false⟩
    let SameKey (o o' : CallOptions) :=
      KeyStrategy.key .request e.id o = KeyStrategy.key .request e.id o'
    (SameKey (query [("a", "1&b=2")]) (query [("a", "1"), ("b", "2")]) ∧
      e.target (query [("a", "1&b=2")]) ≠ e.target (query [("a", "1"), ("b", "2")])) ∧
    (SameKey (headers [("a=b", "c")]) (headers [("a", "b=c")]) ∧
      e.mergedHeaders (headers [("a=b", "c")]) ≠ e.mergedHeaders (headers [("a", "b=c")])) ∧
    (SameKey (query [("a", "1|h:b=2")]) both ∧
      e.mergedHeaders (query [("a", "1|h:b=2")]) ≠ e.mergedHeaders both) ∧
    (SameKey (body (.text "\"s\"")) (body (.json (.string "s"))) ∧
      (e.callBody (body (.text "\"s\""))).map Body.encode ≠
        (e.callBody (body (.json (.string "s")))).map Body.encode) := by
  refine ⟨⟨by decide, fun h => ?_⟩, ⟨by decide, by decide⟩, ⟨by decide, by decide⟩,
    ⟨by decide, by decide⟩⟩
  have hrender := congrArg (fun t => t.toOption.map Url.render) h
  revert hrender
  decide

end Egress
