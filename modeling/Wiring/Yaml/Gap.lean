import Wiring.Yaml.Character

/-!
Gaps between the words of a scalar that may go over several lines. A gap without a line
break is kept. Else the blanks around the breaks are dropped and the breaks are folded:
a single one becomes a space, and of several the first is dropped.
-/

namespace Wiring.Yaml

structure Gap where
  /-- The blanks before the first break. -/
  blanks : List Char
  breaks : List Char

namespace Gap

def empty : Gap := ⟨[], []⟩

def isBroken (gap : Gap) : Bool := !gap.breaks.isEmpty

def addBlank (c : Char) (gap : Gap) : Gap := { gap with blanks := c :: gap.blanks }

def addBreak (c : Char) (gap : Gap) : Gap := ⟨[], c :: gap.breaks⟩

/-- The text that a gap stands for. -/
def fold (gap : Gap) : List Char :=
  match gap.breaks with
  | [] => gap.blanks
  | ['\n'] => [' ']
  | '\n' :: more => more
  | breaks => breaks

end Gap

/-- The white space at the front of a text, with the place after it. `broken` tells that
a break was read before. A tab must not stand left of the column `margin` in a line that
follows a break. -/
def takeGap? (margin : Nat) (broken : Bool) (here : Position) :
    List Char → Option (Gap × Position × List Char)
  | '\r' :: '\n' :: cs => do
    let (gap, place, rest) ← takeGap? margin true (here.newLine 2) cs
    return (gap.addBreak '\n', place, rest)
  | c :: cs =>
    if isBlank c then
      if broken && here.column < margin && c == '\t' then none
      else do
        let (gap, place, rest) ← takeGap? margin broken (here.advance 1) cs
        return (if broken then gap else gap.addBlank c, place, rest)
    else if isBreak c then do
      let (gap, place, rest) ← takeGap? margin true (here.newLine 1) cs
      return (gap.addBreak (breakText c), place, rest)
    else some (Gap.empty, here, c :: cs)
  | [] => some (Gap.empty, here, [])

end Wiring.Yaml
