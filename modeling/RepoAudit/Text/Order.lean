/-!
# The order of texts

* `Text.le` — texts compared character by character, by code point.
* `Text.sort` — texts in that order.
-/

namespace RepoAudit.Text

/-- Whether one text stands before another or is the same. -/
def le (a b : String) : Bool := !(b < a)

/-- Texts in order, equal ones kept. -/
def sort (xs : List String) : List String := xs.mergeSort le

end RepoAudit.Text
