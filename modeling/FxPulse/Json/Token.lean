import FxPulse.Number.Reader
import FxPulse.Json.Basic

/-!
# `Json/Token.lean` — from characters to tokens

The reader of characters is a machine that takes one character at a time. Between tokens it knows
only where it stands; inside a literal it holds what it has read of it. Numbers and words are runs:
the run is taken whole and judged when it ends, and since no token may follow another without a
mark between them, no document is read differently for it.
-/

set_option autoImplicit false

namespace FxPulse.Json

open FxPulse.Number

inductive Token where
  | openArray
  | closeArray
  | openObject
  | closeObject
  | comma
  | colon
  | scalar (value : Json)
  | text (literal : Option String)

/-! ## String literals -/

def isHighSurrogate (unit : Nat) : Bool := decide (0xD800 ≤ unit) && decide (unit < 0xDC00)

def isLowSurrogate (unit : Nat) : Bool := decide (0xDC00 ≤ unit) && decide (unit < 0xE000)

/-- Characters from code points, two surrogates side by side making one. A surrogate without its
other half spells nothing. -/
def joinSurrogates : List Nat → Option (List Char)
  | [] => some []
  | [unit] => if isHighSurrogate unit || isLowSurrogate unit then none else some [Char.ofNat unit]
  | high :: low :: rest =>
    if isHighSurrogate high then
      if isLowSurrogate low then
        (joinSurrogates rest).map
          (Char.ofNat (0x10000 + (high - 0xD800) * 0x400 + (low - 0xDC00)) :: ·)
      else none
    else if isLowSurrogate high then none
    else (joinSurrogates (low :: rest)).map (Char.ofNat high :: ·)

/-- What the character after a backslash stands for. -/
def escaped? : Char → Option Nat
  | '"' => some 0x22
  | '\\' => some 0x5C
  | '/' => some 0x2F
  | 'b' => some 0x08
  | 'f' => some 0x0C
  | 'n' => some 0x0A
  | 'r' => some 0x0D
  | 't' => some 0x09
  | _ => none

def hexDigit? (c : Char) : Option Nat :=
  if c.isDigit then some (c.toNat - '0'.toNat)
  else if 'a' ≤ c && c ≤ 'f' then some (c.toNat - 'a'.toNat + 10)
  else if 'A' ≤ c && c ≤ 'F' then some (c.toNat - 'A'.toNat + 10)
  else none

/-! ## Numbers and words -/

/-- A minus sign or none, digits without a leading zero, digits behind a point, a power of ten. -/
def numberOf? (run : List Char) : Option Numeral :=
  let (negative, body) := match run with
    | '-' :: rest => (true, rest)
    | body => (false, body)
  let whole := body.takeWhile Char.isDigit
  let leadingZero := whole.length > 1 && whole.head? == some '0'
  match numeralOf? negative body with
  | some n =>
    if whole.isEmpty || leadingZero || n.fraction == some [] then none else some n
  | none => none

def wordOf? (run : List Char) : Option Json :=
  match String.ofList run with
  | "null" => some .null
  | "true" => some (.bool true)
  | "false" => some (.bool false)
  | _ => none

/-! ## The machine -/

/-- Where the machine stands. Runs and literals are held last character first. -/
inductive Place where
  | between
  | inNumber (run : List Char)
  | inWord (run : List Char)
  | inText (units : List Nat)
  | afterBackslash (units : List Nat)
  | inHex (units : List Nat) (value digits : Nat)

/-- The machine: the tokens read so far, last one first, and its place. -/
structure Lexer where
  tokens : List Token
  place : Place

namespace Lexer

def start : Lexer := ⟨[], .between⟩

def mark? : Char → Option Token
  | '[' => some .openArray
  | ']' => some .closeArray
  | '{' => some .openObject
  | '}' => some .closeObject
  | ',' => some .comma
  | ':' => some .colon
  | _ => none

def isSpace (c : Char) : Bool :=
  c == ' ' || c == '\t' || c == '\n' || c == '\r'

def isNumeric (c : Char) : Bool :=
  c.isDigit || c == '.' || c == 'e' || c == 'E' || c == '+' || c == '-'

/-- A character that begins a token, or stands between two. -/
def begin? (tokens : List Token) (c : Char) : Option Lexer :=
  if isSpace c then some ⟨tokens, .between⟩
  else if c == '"' then some ⟨tokens, .inText []⟩
  else if c.isDigit || c == '-' then some ⟨tokens, .inNumber [c]⟩
  else if c.isAlpha then some ⟨tokens, .inWord [c]⟩
  else (mark? c).map fun token => ⟨token :: tokens, .between⟩

/-- The run that is being read, judged. -/
def finishRun? (l : Lexer) : Option (List Token) :=
  match l.place with
  | .between => some l.tokens
  | .inNumber run => (numberOf? run.reverse).map fun n => .scalar (.number n) :: l.tokens
  | .inWord run => (wordOf? run.reverse).map fun word => .scalar word :: l.tokens
  | _ => none

def step? (l : Lexer) (c : Char) : Option Lexer :=
  match l.place with
  | .between => begin? l.tokens c
  | .inNumber run =>
    if isNumeric c then some { l with place := .inNumber (c :: run) }
    else l.finishRun?.bind fun tokens => begin? tokens c
  | .inWord run =>
    if c.isAlpha then some { l with place := .inWord (c :: run) }
    else l.finishRun?.bind fun tokens => begin? tokens c
  | .inText units =>
    if c == '"' then
      some ⟨.text ((joinSurrogates units.reverse).map String.ofList) :: l.tokens, .between⟩
    else if c == '\\' then some { l with place := .afterBackslash units }
    else if c.toNat < 0x20 then none
    else some { l with place := .inText (c.toNat :: units) }
  | .afterBackslash units =>
    if c == 'u' then some { l with place := .inHex units 0 0 }
    else (escaped? c).map fun unit => { l with place := .inText (unit :: units) }
  | .inHex units value digits =>
    (hexDigit? c).map fun d =>
      let value := 16 * value + d
      -- The fourth digit ends the escape.
      if digits = 3 then { l with place := .inText (value :: units) }
      else { l with place := .inHex units value (digits + 1) }

end Lexer

/-- The tokens of a text, or nothing when some character has no place in JSON. -/
def tokens? (text : String) : Option (List Token) := do
  let last ← text.toList.foldlM Lexer.step? Lexer.start
  let reversed ← last.finishRun?
  return reversed.reverse

end FxPulse.Json
