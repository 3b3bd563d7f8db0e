import Wiring.Expression.Token
import Wiring.Number.Reading

/-!
Lexemes: the pieces of a text that its tokens are written in. Spaces, tabs and line
breaks separate them; at any other place a lexeme is the longest piece that can be one.
Nothing is lost: what can be no token is a lexeme of the unknown token.
-/

namespace Wiring.Expression

/-- A token with the characters it is written in and what follows them. -/
structure Lexeme where
  token : Token
  text : List Char
  rest : List Char

/-- The characters between lexemes. -/
def isSeparator (c : Char) : Bool := c == ' ' || c == '\t' || c == '\n' || c == '\r'

def isNameStart (c : Char) : Bool := c.isAlpha || c == '_'

def isNamePart (c : Char) : Bool := c.isAlphanum || c == '_'

def wordToken (cs : List Char) : Token :=
  if cs = "True".toList then .truth true
  else if cs = "False".toList then .truth false
  else if cs = "None".toList then .null
  else .name (String.ofList cs)

/-- The token of a whole number; one beyond 63 bits is none. -/
def wholeToken (digits : List Char) : Token :=
  let n := Number.digitsValue digits
  if n < Nat.pow 2 63 then .int (Int64.ofNat n) else .unknown

/-- The beginning of a quoted text after its opening quote. -/
structure Quotation where
  /-- What was read, without the closing quote. -/
  body : List Char
  isClosed : Bool
  rest : List Char

/-- A quotation with more characters in front of it. -/
def Quotation.after (front : List Char) (quotation : Quotation) : Quotation :=
  { quotation with body := front ++ quotation.body }

/-- Reads up to the closing quote. A backslash takes the next character with it, but
not a line break, before which the reading stops. -/
def Quotation.read (quote : Char) : List Char → Quotation
  | [] => ⟨[], false, []⟩
  | c :: cs =>
    if c = quote then ⟨[], true, cs⟩
    else if c = '\\' then
      match cs with
      | [] => ⟨[], false, [c]⟩
      | d :: ds =>
        if d = '\n' then ⟨[], false, c :: d :: ds⟩
        else (read quote ds).after [c, d]
    else (read quote cs).after [c]

/-- The character that a backslash stands for together with the one after it. -/
def escaped? : Char → Option Char
  | 'n' => some '\n'
  | 't' => some '\t'
  | 'r' => some '\r'
  | '0' => some '\x00'
  | '\\' => some '\\'
  | '\'' => some '\''
  | '"' => some '"'
  | _ => none

/-- The text that the characters between two quotes stand for. A backslash before any
other character stays. -/
def unescape : List Char → List Char
  | '\\' :: c :: cs =>
    match escaped? c with
    | some d => d :: unescape cs
    | none => '\\' :: c :: unescape cs
  | c :: cs => c :: unescape cs
  | [] => []

def markToken : Char → Token
  | '-' => .minus
  | '(' => .opening .round
  | ')' => .closing .round
  | '[' => .opening .square
  | ']' => .closing .square
  | '{' => .opening .curly
  | '}' => .closing .curly
  | ',' => .comma
  | ':' => .colon
  | '.' => .dot
  | _ => .unknown

namespace Lexeme

def ofName (c : Char) (cs : List Char) : Lexeme :=
  let word := c :: cs.takeWhile isNamePart
  ⟨wordToken word, word, cs.dropWhile isNamePart⟩

def ofDigit (c : Char) (cs : List Char) : Lexeme :=
  let (more, rest) := Number.spanDigits cs
  let whole := c :: more
  match rest with
  | '.' :: ds =>
    let (fraction, rest) := Number.spanDigits ds
    ⟨.float (Number.ofDigits false whole fraction 0), whole ++ '.' :: fraction, rest⟩
  | _ => ⟨wholeToken whole, whole, rest⟩

/-- The lexeme that begins with a quote. If the quote is never closed, all that was read
is no token. -/
def ofQuote (quote : Char) (cs : List Char) : Lexeme :=
  let quotation := Quotation.read quote cs
  if quotation.isClosed then
    ⟨.text (String.ofList (unescape quotation.body)), quote :: (quotation.body ++ [quote]),
      quotation.rest⟩
  else ⟨.unknown, quote :: quotation.body, quotation.rest⟩

/-- The lexeme at the front of a text that begins with `c`, which is no separator. -/
def read (c : Char) (cs : List Char) : Lexeme :=
  if isNameStart c then ofName c cs
  else if c.isDigit then ofDigit c cs
  else if c = '"' ∨ c = '\'' then ofQuote c cs
  else ⟨markToken c, [c], cs⟩

end Lexeme

theorem Quotation.read_append (quote : Char) (cs : List Char) :
    let quotation := Quotation.read quote cs
    quotation.body ++ ((if quotation.isClosed then [quote] else []) ++ quotation.rest) = cs := by
  fun_induction Quotation.read quote cs with
  | case1 => rfl
  | case2 => rfl
  | case3 => rfl
  | case4 => rfl
  | case5 d ds _ _ ih => exact congrArg (fun tail => '\\' :: d :: tail) ih
  | case6 c cs _ _ ih => exact congrArg (fun tail => c :: tail) ih

/-- A lexeme and what follows it make up the text. -/
theorem Lexeme.text_append_rest (c : Char) (cs : List Char) :
    (Lexeme.read c cs).text ++ (Lexeme.read c cs).rest = c :: cs := by
  unfold Lexeme.read
  split
  · simp [ofName]
  · split
    · unfold ofDigit
      have hsplit := List.takeWhile_append_dropWhile (p := Char.isDigit) (l := cs)
      simp only [Number.spanDigits]
      split
      · rename_i ds hrest
        have hfraction := List.takeWhile_append_dropWhile (p := Char.isDigit) (l := ds)
        rw [hrest] at hsplit
        simp only [List.append_assoc, List.cons_append, hfraction]
        exact congrArg _ hsplit
      · simp
    · split
      · have h := Quotation.read_append c cs
        unfold ofQuote
        cases hclosed : (Quotation.read c cs).isClosed <;> simp_all
      · rfl

/-- A lexeme holds at least one character. -/
theorem Lexeme.text_ne_nil (c : Char) (cs : List Char) : (Lexeme.read c cs).text ≠ [] := by
  unfold Lexeme.read
  split
  · simp [ofName]
  · split
    · unfold ofDigit
      simp only [Number.spanDigits]
      split <;> simp
    · split
      · unfold ofQuote
        simp only
        split <;> simp
      · simp

theorem Lexeme.rest_length_le (c : Char) (cs : List Char) :
    (Lexeme.read c cs).rest.length ≤ cs.length := by
  have hlength := congrArg List.length (Lexeme.text_append_rest c cs)
  have hpos := List.length_pos_iff.2 (Lexeme.text_ne_nil c cs)
  simp only [List.length_append, List.length_cons] at hlength
  omega

/-- A token with the bytes it covers: those from `start` on and before `stop`. -/
structure SpannedToken where
  token : Token
  start : Nat
  stop : Nat
deriving DecidableEq

/-- The number of bytes of characters in UTF-8. -/
def byteLength : List Char → Nat
  | [] => 0
  | c :: cs => c.utf8Size + byteLength cs

/-- The tokens of characters that stand at a position of a text. -/
def tokensAt (position : Nat) : List Char → List SpannedToken
  | [] => []
  | c :: cs =>
    if isSeparator c then tokensAt (position + c.utf8Size) cs
    else
      let lexeme := Lexeme.read c cs
      have := Lexeme.rest_length_le c cs
      let stop := position + byteLength lexeme.text
      ⟨lexeme.token, position, stop⟩ :: tokensAt stop lexeme.rest
termination_by cs => cs.length

def tokens (text : String) : List SpannedToken := tokensAt 0 text.toList

end Wiring.Expression
