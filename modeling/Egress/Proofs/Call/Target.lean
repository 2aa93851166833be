import Egress.Call.Target
import Egress.Proofs.Dict
import Egress.Proofs.Url.Form

/-!
# What becomes of the parameters

The URL of a call is that of its endpoint as long as neither of them has parameters of its own
(`target_of_unparametrized`); otherwise its query is written anew (`target_of_parametrized`).

* `get?_parameters`: under each name the parameter is that of the call, else that of the endpoint, else the
  last one of the URL.
* `query_of_target`: those parameters, in ascending order of their names, are read from the new query, and
  the rest of the URL stays as it was.
* `keeps_values_iff`: a name that the URL gives several times, and that nobody overrides, keeps all its values
  only where the query is not written anew.

Both are about URLs that `Url.parse` reads, so that domain names are in ASCII (`Url.parseHost`).
-/

set_option autoImplicit false

namespace Egress

/-! ## Queries in the text of a URL -/

namespace Url

/-- The text before the query. -/
def beforeQuery (u : Url) : String := u.scheme ++ ":" ++ u.authority ++ u.path.render

/-- The text behind the query. -/
def behindQuery (u : Url) : String := u.fragment.elim "" ("#" ++ ·)

theorem render_eq (u : Url) :
    u.render = u.beforeQuery ++ u.query.elim "" ("?" ++ ·) ++ u.behindQuery := rfl

theorem queryPairs_withQueryPairs (u : Url) (pairs : List (String × String)) :
    (u.withQueryPairs pairs).queryPairs = pairs := decodeForm_encodeForm pairs

end Url

namespace Endpoint

variable (e : Endpoint) (options : CallOptions)

/-- Neither the endpoint nor the call has parameters of its own. -/
def Unparametrized : Prop := e.queryParams = ∅ ∧ options.query = ∅

theorem unparametrized_iff :
    (e.queryParams.isEmpty && options.query.isEmpty) = true ↔ e.Unparametrized options := by
  rw [Bool.and_eq_true, Dict.isEmpty_iff, Dict.isEmpty_iff, Unparametrized]

variable {e options}

theorem target_of_unparametrized {url : Url} (h : Url.parse e.url = .ok url)
    (hnone : e.Unparametrized options) : e.target options = .ok url := by
  rw [target, h]
  exact if_pos ((e.unparametrized_iff options).2 hnone)

theorem target_of_parametrized {url : Url} (h : Url.parse e.url = .ok url)
    (hsome : ¬e.Unparametrized options) :
    e.target options = .ok (url.withQueryPairs (e.parameters options url).entries) := by
  rw [target, h]
  exact if_neg fun hempty => hsome ((e.unparametrized_iff options).1 hempty)

variable (e options)

theorem get?_parameters (url : Url) (name : String) :
    (e.parameters options url).get? name =
      (options.query.get? name).or
        ((e.queryParams.get? name).or (Fields.getAll name url.queryPairs).getLast?) := by
  rw [parameters, Dict.get?_overlay, Dict.get?_overlay, Dict.get?_ofList_getAll]

/-- Without parameters of the endpoint or of the call a URL is called as it is. Otherwise the query is read
as one pair for each name, ascending: the value of the call, else that of the endpoint, else the last one of
the URL. All other parts of the URL, and its text before and behind the query, stay as they were. -/
theorem query_of_target {url : Url} (h : Url.parse e.url = .ok url) :
    (e.Unparametrized options → e.target options = .ok url) ∧
    (¬e.Unparametrized options → ∃ target, e.target options = .ok target ∧
      Fields.Ascending target.queryPairs ∧
      (∀ name, Fields.getAll name target.queryPairs =
        ((options.query.get? name).or
          ((e.queryParams.get? name).or (Fields.getAll name url.queryPairs).getLast?)).toList) ∧
      target.scheme = url.scheme ∧ target.username = url.username ∧ target.password = url.password ∧
      target.host = url.host ∧ target.port = url.port ∧ target.path = url.path ∧
      target.fragment = url.fragment ∧
      ∃ before query behind, '#' ∉ query.toList ∧ target.query = some query ∧
        url.render = before ++ url.query.elim "" ("?" ++ ·) ++ behind ∧
        target.render = before ++ "?" ++ query ++ behind) := by
  refine ⟨target_of_unparametrized h, fun hsome => ?_⟩
  let parameters := e.parameters options url
  have hpairs := url.queryPairs_withQueryPairs parameters.entries
  refine ⟨_, target_of_parametrized h hsome, ?_, fun name => ?_, rfl, rfl, rfl, rfl, rfl, rfl, rfl,
    url.beforeQuery, Url.encodeForm parameters.entries, url.behindQuery, ?_, rfl, url.render_eq, ?_⟩
  · rw [hpairs]
    exact parameters.ascending
  · rw [hpairs, parameters.ascending.getAll, ← get?_parameters]
    rfl
  · exact Url.hash_notMem_encodeForm _
  · rw [Url.render_eq]
    simp only [Url.withQueryPairs, Option.elim_some, String.append_assoc]
    rfl

/-- Names and values with separators in them, an empty name, and a name that is given by all three. -/
theorem query_of_target_separators :
    let e : Endpoint :=
      { Endpoint.plain "e" "E" "http://u:p@h:8080/x?a=1&b=2&b=3&%26=%#f" with
        queryParams := Dict.ofList [("b", "4"), ("c&d", "5=6")] }
    let options : CallOptions :=
      ⟨Dict.ofList [("b", "+ %"), ("", "é#")], ∅, none, none, false⟩
    ∃ target, e.target options = .ok target ∧ Fields.Ascending target.queryPairs ∧
      Fields.getAll "" target.queryPairs = ["é#"] ∧ Fields.getAll "&" target.queryPairs = ["%"] ∧
      Fields.getAll "a" target.queryPairs = ["1"] ∧ Fields.getAll "b" target.queryPairs = ["+ %"] ∧
      Fields.getAll "c&d" target.queryPairs = ["5=6"] ∧ target.fragment = some "f" := by
  intro e options
  let url : Url := ⟨"http", "u", "p", some (.domain "h"), some 8080, .segments ["x"],
    some "a=1&b=2&b=3&%26=%", some "f"⟩
  have hparse : Url.parse "http://u:p@h:8080/x?a=1&b=2&b=3&%26=%#f" = .ok url := by rfl
  have hsome : ¬e.Unparametrized options := fun h => absurd h.2 (by decide)
  obtain ⟨target, htarget, hascending, hvalues, -, -, -, -, -, -, hfragment, -⟩ :=
    (query_of_target e options hparse).2 hsome
  exact ⟨target, htarget, hascending, (hvalues "").trans (by rfl), (hvalues "&").trans (by rfl),
    (hvalues "a").trans (by rfl), (hvalues "b").trans (by rfl), (hvalues "c&d").trans (by rfl), hfragment⟩

/-! ## Parameters that nobody overrides -/

/-- A name that neither the endpoint nor the call sets keeps the values that the URL gives it exactly if
the query is not written anew or the name is given at most once. Of several values the last one is left. -/
theorem keeps_values_iff {url : Url} (h : Url.parse e.url = .ok url) {name : String}
    (hendpoint : e.queryParams.get? name = none) (hcall : options.query.get? name = none) :
    ∃ target, e.target options = .ok target ∧
      (Fields.getAll name target.queryPairs = Fields.getAll name url.queryPairs ↔
        e.Unparametrized options ∨ (Fields.getAll name url.queryPairs).length ≤ 1) ∧
      (¬e.Unparametrized options → Fields.getAll name target.queryPairs =
        (Fields.getAll name url.queryPairs).getLast?.toList) := by
  by_cases hnone : e.Unparametrized options
  · exact ⟨url, target_of_unparametrized h hnone, iff_of_true rfl (.inl hnone), fun hsome => absurd hnone hsome⟩
  · have hvalues : Fields.getAll name
        (url.withQueryPairs (e.parameters options url).entries).queryPairs =
          (Fields.getAll name url.queryPairs).getLast?.toList := by
      rw [Url.queryPairs_withQueryPairs, (e.parameters options url).ascending.getAll]
      change ((e.parameters options url).get? name).toList = _
      rw [get?_parameters, hendpoint, hcall]
      rfl
    refine ⟨_, target_of_parametrized h hnone, ?_, fun _ => hvalues⟩
    rw [hvalues, or_iff_right hnone]
    rcases Fields.getAll name url.queryPairs with _ | ⟨v, _ | ⟨w, values⟩⟩
    · simp
    · simp
    · refine iff_of_false (fun heq => ?_) (by simp)
      have := congrArg List.length heq
      cases hlast : (v :: w :: values).getLast? <;> simp [hlast] at this

/-- Beside one more parameter a name that is given once keeps its value, and of one that is given twice the
second value is left. -/
theorem keeps_values_iff_repeatedTag :
    let e := Endpoint.plain "e" "E" "http://h/?tag=a&tag=b&flag"
    let options : CallOptions := ⟨Dict.ofList [("q", "x")], ∅, none, none, false⟩
    ∃ target, e.target options = .ok target ∧ Fields.getAll "flag" target.queryPairs = [""] ∧
      Fields.getAll "tag" target.queryPairs = ["b"] := by
  intro e options
  let url : Url := ⟨"http", "", "", some (.domain "h"), none, .segments [""], some "tag=a&tag=b&flag", none⟩
  have hparse : Url.parse "http://h/?tag=a&tag=b&flag" = .ok url := by rfl
  have hsome : ¬e.Unparametrized options := fun h => absurd h.2 (by decide)
  obtain ⟨target, htarget, hflag, -⟩ :=
    @keeps_values_iff e options url hparse "flag" (by decide) (by decide)
  obtain ⟨target', htarget', -, htag⟩ :=
    @keeps_values_iff e options url hparse "tag" (by decide) (by decide)
  obtain rfl := Except.ok.inj (htarget.symm.trans htarget')
  exact ⟨target, htarget, (hflag.2 (.inr (by decide))).trans (by rfl), (htag hsome).trans (by rfl)⟩

/-- The first of two values of a parameter in the URL is lost beside a parameter of the call that has nothing
to do with it. -/
theorem repeated_parameter_lost :
    let e := Endpoint.plain "e" "E" "http://h/?tag=a&tag=b"
    let options : CallOptions := ⟨Dict.ofList [("q", "x")], ∅, none, none, false⟩
    e.queryParams.get? "tag" = none ∧ options.query.get? "tag" = none ∧
      ∃ url target, Url.parse e.url = .ok url ∧ e.target options = .ok target ∧
        Fields.getAll "tag" url.queryPairs = ["a", "b"] ∧ Fields.getAll "tag" target.queryPairs = ["b"] :=
  ⟨by decide, by decide,
    ⟨"http", "", "", some (.domain "h"), none, .segments [""], some "tag=a&tag=b", none⟩,
    ⟨"http", "", "", some (.domain "h"), none, .segments [""], some "q=x&tag=b", none⟩,
    by rfl, by rfl, by rfl, by rfl⟩

end Endpoint

end Egress
