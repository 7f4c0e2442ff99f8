/-!
# Capitals

The capital form of a text, for comparing it with words of plain letters.

* `plainCapitals` — the letters beyond ASCII that have plain capitals.
* `capitals` — the capital form of a text.
-/

namespace RepoAudit.Text

/-- The letters beyond ASCII with a capital form of plain letters: the sharp s, the dotless i, the
long s and the ligatures of f and of s. -/
def plainCapitals : List (Char × List Char) := [
  ('\u00DF', ['S', 'S']), ('\u0131', ['I']), ('\u017F', ['S']), ('\uFB00', ['F', 'F']),
  ('\uFB01', ['F', 'I']), ('\uFB02', ['F', 'L']), ('\uFB03', ['F', 'F', 'I']),
  ('\uFB04', ['F', 'F', 'L']), ('\uFB05', ['S', 'T']), ('\uFB06', ['S', 'T'])]

/-- The capital form of a character. A letter whose capital form reaches beyond ASCII stands for that
form: no word of plain letters holds either of them. -/
def capital (c : Char) : List Char := (plainCapitals.lookup c).getD [c.toUpper]

/-- The capital form of a text. -/
def capitals (s : String) : String := String.ofList (s.toList.flatMap capital)

end RepoAudit.Text
