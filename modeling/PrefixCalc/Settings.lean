/-
# Settings

What the user may choose: how deeply parentheses may nest, and whether the trees of
the input are shown. There is a ceiling to the nesting limit, since reading and
reduction go as deep as the input does.
-/

namespace PrefixCalc

/-- The user's choices. -/
structure Settings where
  /-- How deeply parentheses may nest. -/
  nestingLimit : Nat := 256
  /-- Whether the syntax tree and the value tree of the input are shown. -/
  showTrees : Bool := false
  deriving DecidableEq

namespace Settings

instance : Inhabited Settings := ⟨{}⟩

/-- The greatest nesting limit that may be chosen. -/
def ceiling : Nat := 1024

/-- The settings with another nesting limit, or with the ceiling if that is lower. -/
def withNestingLimit (settings : Settings) (limit : Nat) : Settings :=
  { settings with nestingLimit := min limit ceiling }

/-- The settings with trees shown or not. -/
def withShowTrees (settings : Settings) (showTrees : Bool) : Settings :=
  { settings with showTrees }

theorem nestingLimit_withNestingLimit_le (settings : Settings) (limit : Nat) :
    (settings.withNestingLimit limit).nestingLimit ≤ ceiling := Nat.min_le_right _ _

theorem nestingLimit_withNestingLimit_of_le (settings : Settings) {limit : Nat}
    (h : limit ≤ ceiling) : (settings.withNestingLimit limit).nestingLimit = limit :=
  Nat.min_eq_left h

end Settings

end PrefixCalc
