import Egress.Proofs.Dict
import Egress.Proofs.Errand
import Egress.Proofs.Text.Base64
import Egress.Proofs.Text.Utf8
import Egress.Proofs.Url.Form

/-!
# Credentials are read back

Basic authentication sends user name and password as one text, with a colon between them. A recipient undoes the
two encodings and cuts the text at its first colon, so that a password may hold colons and a user name may not.

* `cutAtColon?_eq_some_iff`: what is cut at the first colon is what was joined.
* `readCredentials?_eq_some_iff`: user name and password are read from the text that they are sent as, and from
  no other one.
* `Endpoint.recoverable_basic`: from this what a recipient can tell from the header of a call (`Recoverable`).
-/

set_option autoImplicit false

namespace Egress

open Text

/-! ## The two parts of a text -/

/-- What stands before the first colon, and what stands behind it. -/
def cutAtColon? (text : String) : Option (String × String) :=
  match text.toList.span (· ≠ ':') with
  | (_, []) => none
  | (before, _ :: after) => some (String.ofList before, String.ofList after)

section

variable {text username password : String}

theorem toList_joined (username password : String) :
    (username ++ ":" ++ password).toList = username.toList ++ ':' :: password.toList := by
  rw [String.toList_append, String.toList_append, List.append_assoc]
  rfl

theorem cutAtColon?_joined (h : ':' ∉ username.toList) (password : String) :
    cutAtColon? (username ++ ":" ++ password) = some (username, password) := by
  rw [cutAtColon?, toList_joined, Url.span_ne_append h]
  simp only [String.ofList_toList]

theorem eq_joined_of_cutAtColon? (h : cutAtColon? text = some (username, password)) :
    text = username ++ ":" ++ password ∧ ':' ∉ username.toList := by
  rw [cutAtColon?, List.span_eq_takeWhile_dropWhile] at h
  split at h
  case h_1 => cases h
  case h_2 before c after hspan =>
    obtain ⟨hbefore, hafter⟩ := Prod.mk.inj hspan
    obtain ⟨rfl, rfl⟩ := Prod.mk.inj (Option.some.inj h)
    -- what is left begins with the character that the first part stops at
    have hhead := List.head?_dropWhile_not (fun c => decide (c ≠ ':')) text.toList
    rw [hafter] at hhead
    obtain rfl : c = ':' := by simpa using hhead
    refine ⟨?_, ?_⟩
    · rw [← String.toList_inj, toList_joined, String.toList_ofList, String.toList_ofList, ← hbefore, ← hafter,
        List.takeWhile_append_dropWhile]
    · rw [String.toList_ofList, ← hbefore]
      intro hcolon
      exact absurd (List.all_eq_true.1 List.all_takeWhile ':' hcolon) (by decide)

theorem cutAtColon?_eq_some_iff :
    cutAtColon? text = some (username, password) ↔
      text = username ++ ":" ++ password ∧ ':' ∉ username.toList :=
  ⟨eq_joined_of_cutAtColon?, fun ⟨htext, hcolon⟩ => htext ▸ cutAtColon?_joined hcolon password⟩

/-! ## Reading -/

/-- The user name and the password that a text of basic authentication stands for. -/
def readCredentials? (code : String) : Option (String × String) :=
  (Base64.decode? code.toList).bind fun bytes => (Utf8.decode? bytes).bind cutAtColon?

theorem toList_basicCredentials (username password : String) :
    (basicCredentials username password).toList =
      Base64.encode (Utf8.encode (username ++ ":" ++ password)) :=
  String.toList_ofList

theorem readCredentials?_eq_some_iff {code : String} :
    readCredentials? code = some (username, password) ↔
      code = basicCredentials username password ∧ ':' ∉ username.toList := by
  simp only [readCredentials?, Option.bind_eq_some_iff, Base64.decode?_eq_some_iff, Utf8.decode?_eq_some_iff,
    cutAtColon?_eq_some_iff, ← @String.toList_inj code, toList_basicCredentials]
  constructor
  · rintro ⟨bytes, hcode, text, rfl, rfl, hcolon⟩
    exact ⟨hcode, hcolon⟩
  · rintro ⟨hcode, hcolon⟩
    exact ⟨_, hcode, _, rfl, rfl, hcolon⟩

/-- User names without a colon and passwords are told apart by what they are sent as. -/
theorem basicCredentials_inj {username' password' : String} (h : ':' ∉ username.toList)
    (h' : ':' ∉ username'.toList)
    (hcode : basicCredentials username' password' = basicCredentials username password) :
    username' = username ∧ password' = password := by
  have hread : readCredentials? (basicCredentials username password) = some (username, password) :=
    readCredentials?_eq_some_iff.2 ⟨rfl, h⟩
  have hread' : readCredentials? (basicCredentials username password) = some (username', password') :=
    readCredentials?_eq_some_iff.2 ⟨hcode.symm, h'⟩
  exact Prod.mk.inj (Option.some.inj (hread'.symm.trans hread))

end

/-! ## The header of a call -/

section

variable {tokens : Tokens} {id username password : String} {headers after : Dict String}

theorem Auth.apply_basic_eq_ok_iff : (Auth.basic username password).apply tokens id headers = .ok after ↔
    after = headers.insert "authorization" ("Basic " ++ basicCredentials username password) := by
  rw [apply, header?, Except.ok.injEq, eq_comm]

theorem Auth.get?_of_apply_basic (h : (Auth.basic username password).apply tokens id headers = .ok after) :
    after.get? "authorization" = some ("Basic " ++ basicCredentials username password) := by
  rw [apply_basic_eq_ok_iff.1 h, Dict.get?_insert_self]

end

/-- What a recipient can tell from the header of an endpoint with basic authentication: the scheme sets it in any
headers and every call carries it; it is the padded base64 of the bytes of user name, colon and password; both
are read from it; and no other user name without a colon or password is sent as the same header. -/
structure Endpoint.Recoverable (e : Endpoint) (username password code : String) : Prop where
  resolved : ∀ tokens headers, ∃ after, e.auth.apply tokens e.id headers = .ok after ∧
    after.get? "authorization" = some ("Basic " ++ code)
  carried : ∀ tokens options call, Call.prepare tokens e options = .ok call →
    call.headers.get? "authorization" = some ("Basic " ++ code)
  padded : Base64.Padded (Utf8.encode (username ++ ":" ++ password)).length code.toList
  decoded : Base64.decode? code.toList = some (Utf8.encode (username ++ ":" ++ password))
  read : readCredentials? code = some (username, password)
  unique : ∀ (other : Endpoint) (username' password' : String), other.auth = .basic username' password' →
    ':' ∉ username'.toList → ∀ tokens headers after, other.auth.apply tokens other.id headers = .ok after →
    after.get? "authorization" = some ("Basic " ++ code) → username' = username ∧ password' = password

theorem Endpoint.recoverable_basic (e : Endpoint) {username password : String}
    (hauth : e.auth = .basic username password) (hcolon : ':' ∉ username.toList) :
    e.Recoverable username password (basicCredentials username password) := by
  refine ⟨fun tokens headers => ?_, fun tokens options call hcall => ?_, ?_, ?_,
    readCredentials?_eq_some_iff.2 ⟨rfl, hcolon⟩, ?_⟩
  · rw [hauth]
    exact ⟨_, Auth.apply_basic_eq_ok_iff.2 rfl, Dict.get?_insert_self ..⟩
  · obtain ⟨url, headers, -, happly, rfl⟩ := Call.prepare_eq_ok_iff.1 hcall
    rw [hauth] at happly
    exact Auth.get?_of_apply_basic happly
  · rw [toList_basicCredentials]
    exact Base64.padded_encode _
  · rw [toList_basicCredentials]
    exact Base64.decode?_encode _
  · intro other username' password' hother hcolon' tokens headers after happly hvalue
    rw [hother] at happly
    rw [Auth.get?_of_apply_basic happly, Option.some.injEq, String.append_right_inj] at hvalue
    exact basicCredentials_inj hcolon hcolon' hvalue

/-- Characters of two and of four bytes, and a colon in the password. -/
def Endpoint.guarded : Endpoint :=
  { Endpoint.plain "e" "E" "http://h/" with auth := .basic "Zoë" "a:😀" }

theorem Endpoint.recoverable_basic_guarded :
    guarded.auth = .basic "Zoë" "a:😀" ∧ ':' ∉ "Zoë".toList ∧
      guarded.Recoverable "Zoë" "a:😀" "Wm/DqzphOvCfmIA=" := by
  have hcode : basicCredentials "Zoë" "a:😀" = "Wm/DqzphOvCfmIA=" := by decide +kernel
  have hcolon : ':' ∉ "Zoë".toList := by decide
  exact ⟨rfl, hcolon, hcode ▸ guarded.recoverable_basic rfl hcolon⟩

end Egress
