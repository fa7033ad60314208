import Reckoner.Text.Character

set_option autoImplicit false

namespace Reckoner

/-- The sign that two signs in a row stand for. -/
def combineSigns (c d : Char) : Char := if c == d then '+' else '-'

/-- A character before a text, combined with the sign there if both are signs. -/
def attachSign (c : Char) : Text → Text
  | [] => [c]
  | d :: r => if isSign c && isSign d then combineSigns c d :: r else c :: d :: r

/-- The text with one sign in place of every run of signs. -/
def reduceSigns (t : Text) : Text := t.foldr attachSign []

@[simp] theorem reduceSigns_nil : reduceSigns [] = [] := rfl

theorem reduceSigns_cons (c : Char) (t : Text) :
    reduceSigns (c :: t) = attachSign c (reduceSigns t) := rfl

theorem isSign_combineSigns (c d : Char) : isSign (combineSigns c d) = true := by
  unfold combineSigns
  split <;> rfl

theorem attachSign_of_not_isSign {c : Char} (h : isSign c = false) (t : Text) :
    attachSign c t = c :: t := by
  cases t <;> simp [attachSign, h]

end Reckoner
