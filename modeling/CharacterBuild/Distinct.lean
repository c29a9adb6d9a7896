set_option autoImplicit false

/-! # Lists without repetitions

Of several elements that are alike, the first one is kept, and the kept ones stay in order.
-/

namespace CharacterBuild

variable {α : Type}

/-- The list with an element at its end, unless it holds the like of it already. -/
def addNew (alike : α → α → Bool) (kept : List α) (a : α) : List α :=
  if kept.any fun b => alike b a then kept else kept ++ [a]

/-- The elements that come first of those they are alike to. -/
def firstsBy (alike : α → α → Bool) (l : List α) : List α := l.foldl (addNew alike) []

end CharacterBuild
