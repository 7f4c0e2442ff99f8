import RepoAudit.Text.Surrogate

/-!
# Texts that are no paths

The system takes a text as a path only when every character of it has bytes, and none of them is
U+0000.

* `Path.IsPassable` — a text that the system takes.
* `Refusal.of?`, `Refusal.of` — why a text is not taken.
-/

namespace RepoAudit

/-- Why a text is no path, nor anything else that is passed to the system. -/
inductive Refusal where
  | nullCharacter
  | unencodable (text : String)
  deriving Repr, DecidableEq

/-- The reason in words. -/
def Refusal.message : Refusal → String
  | .nullCharacter => "embedded null byte"
  | .unencodable text => text

namespace Path

/-- Whether no path may hold a character. -/
def isRefused (c : Char) : Bool := c = '\x00' || Text.isUnencodable c

/-- A text that the system takes as a path. -/
def IsPassable (p : String) : Prop := ∀ c ∈ p.toList, isRefused c = false

instance (p : String) : Decidable (IsPassable p) :=
  List.decidableBAll (fun c => isRefused c = false) p.toList

end Path

/-- Why a text that the system does not take is not taken: its bytes are asked for first. -/
def Refusal.of (p : String) : Refusal :=
  match Text.encodingError? p with
  | some text => .unencodable text
  | none => .nullCharacter

/-- Why a text is not taken, if it is not. -/
def Refusal.of? (p : String) : Option Refusal := if Path.IsPassable p then none else some (.of p)

end RepoAudit
