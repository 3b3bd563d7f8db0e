import Wiring.Yaml.Gap

/-!
Plain scalars, which are written without quotes. They end before a comment, a mark
between documents, a colon that ends a word, a line that is not indented enough, and, in
a flow collection, before any of its punctuation.
-/

namespace Wiring.Yaml

def isFlowPunctuation (c : Char) : Bool :=
  c == ',' || c == '[' || c == ']' || c == '{' || c == '}'

/-- The characters at the front of a text up to white space or what ends the scalar. In
a flow collection a colon must not stand before punctuation. -/
def takePlainRun? (inFlow : Bool) : List Char → Option (List Char × List Char)
  | [] => some ([], [])
  | c :: cs =>
    if isBlank c || isBreak c then some ([], c :: cs)
    else if inFlow && c == ':' && cs.head?.any (fun d => isFlowPunctuation d || d == '?') then none
    else if (c == ':' && endsWord cs) || (inFlow && isFlowPunctuation c) then some ([], c :: cs)
    else do
      let (run, rest) ← takePlainRun? inFlow cs
      return (c :: run, rest)

/-- A scalar that was read, with the place after it. -/
structure PlainScalar where
  text : List Char
  /-- Whether a line break was read after the last word. -/
  endsLine : Bool
  position : Position
  rest : List Char

/-- The rest of a plain scalar after some text and a gap. Lines must be indented to the
column `margin`. `fuel` bounds the number of words. -/
def takePlainFrom? (inFlow : Bool) (margin : Nat) :
    Nat → List Char → Gap → Position → List Char → Option PlainScalar
  | 0, _, _, _, _ => none
  | fuel + 1, text, gap, here, cs =>
    if here.column = 0 && isDocumentMark cs || cs.head? == some '#' then
      some ⟨text, gap.isBroken, here, cs⟩
    else do
      let (run, rest) ← takePlainRun? inFlow cs
      if run.isEmpty then return ⟨text, gap.isBroken, here, cs⟩
      else
        let text := text ++ gap.fold ++ run
        let after := here.advance run.length
        if rest.isEmpty || !endsWord rest then return ⟨text, false, after, rest⟩
        else
          let (next, place, rest) ← takeGap? margin false after rest
          if !inFlow && place.column < margin then return ⟨text, next.isBroken, place, rest⟩
          else takePlainFrom? inFlow margin fuel text next place rest

/-- The plain scalar at the front of a text. -/
def takePlain? (inFlow : Bool) (margin : Nat) (here : Position) (cs : List Char) :
    Option PlainScalar :=
  takePlainFrom? inFlow margin (cs.length + 1) [] Gap.empty here cs

end Wiring.Yaml
