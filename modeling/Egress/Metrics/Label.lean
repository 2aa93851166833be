import Egress.Dict

/-!
Labels.

Dashboards expect labels of ASCII letters, digits and underscores that do not start with a digit.
`Label.sanitize` makes one of any text; `LabelMemo` remembers what it made.
-/

set_option autoImplicit false

namespace Egress

namespace Label

def isLabelChar (c : Char) : Bool := c.isAlphanum || c = '_'

/-- The text with an underscore for every other character, and one in front of a leading digit. -/
def sanitize (text : String) : String :=
  let cs := text.toList.map fun c => if isLabelChar c then c else '_'
  String.ofList (if cs.head?.any Char.isDigit then '_' :: cs else cs)

end Label

/-- The labels made so far, by text. -/
structure LabelMemo where
  known : Dict String
  deriving DecidableEq

namespace LabelMemo

/-- The memory before the first label. -/
def empty : LabelMemo := ⟨∅⟩

/-- The label of a text, looked up if it was made before. -/
def sanitize (memo : LabelMemo) (text : String) : String × LabelMemo :=
  match memo.known.get? text with
  | some label => (label, memo)
  | none =>
    let label := Label.sanitize text
    (label, ⟨memo.known.insert text label⟩)

end LabelMemo

end Egress
