import FxPulse.Json.Token

/-!
# `Json/Parser.lean` — from tokens to a document

The arrays and objects that have been opened and not closed form a stack; each token either opens
one, closes one or puts something into the topmost. So a document is read by one pass over its
tokens, and however deep it is nested, reading it needs no recursion.
-/

set_option autoImplicit false

namespace FxPulse.Json

/-- An array or object that is still open, its contents last one first. -/
inductive Frame where
  | array (items : List Json)
  | object (members : List (Option String × Json))
  /-- An object whose next member has its key and lacks its value. -/
  | member (members : List (Option String × Json)) (key : Option String)

/-- What may come next. -/
inductive Awaited where
  | value
  | valueOrClose
  | key
  | keyOrClose
  | colon
  | commaOrClose
  | nothing (document : Json)

/-- A document read in part. -/
structure Partial where
  stack : List Frame
  awaited : Awaited

namespace Partial

def start : Partial := ⟨[], .value⟩

/-- Puts a complete value where it belongs. -/
def put? (stack : List Frame) (value : Json) : Option Partial :=
  match stack with
  | [] => some ⟨[], .nothing value⟩
  | .array items :: rest => some ⟨.array (value :: items) :: rest, .commaOrClose⟩
  | .member members key :: rest => some ⟨.object ((key, value) :: members) :: rest, .commaOrClose⟩
  | .object _ :: _ => none

/-- A token where a value is awaited. -/
def beginValue? (stack : List Frame) : Token → Option Partial
  | .openArray => some ⟨.array [] :: stack, .valueOrClose⟩
  | .openObject => some ⟨.object [] :: stack, .keyOrClose⟩
  | .scalar value => put? stack value
  | .text literal => put? stack (.text literal)
  | _ => none

/-- Closes the topmost frame. -/
def close? (stack : List Frame) (token : Token) : Option Partial :=
  match token, stack with
  | .closeArray, .array items :: rest => put? rest (.array items.reverse)
  | .closeObject, .object members :: rest => put? rest (.object members.reverse)
  | _, _ => none

/-- A token where a key is awaited. -/
def takeKey? (stack : List Frame) (token : Token) : Option Partial :=
  match token, stack with
  | .text key, .object members :: rest => some ⟨.member members key :: rest, .colon⟩
  | _, _ => none

def step? (p : Partial) (token : Token) : Option Partial :=
  match p.awaited with
  | .value => beginValue? p.stack token
  | .valueOrClose =>
    match token with
    | .closeArray => close? p.stack token
    | _ => beginValue? p.stack token
  | .key => takeKey? p.stack token
  | .keyOrClose =>
    match token with
    | .closeObject => close? p.stack token
    | _ => takeKey? p.stack token
  | .colon =>
    match token with
    | .colon => some ⟨p.stack, .value⟩
    | _ => none
  | .commaOrClose =>
    match token, p.stack with
    | .comma, .array _ :: _ => some ⟨p.stack, .value⟩
    | .comma, .object _ :: _ => some ⟨p.stack, .key⟩
    | _, _ => close? p.stack token
  | .nothing _ => none

end Partial

/-- The document that a text spells, with nothing but blanks around it. -/
def parse? (text : String) : Option Json := do
  let tokens ← tokens? text
  let last ← tokens.foldlM Partial.step? Partial.start
  match last.awaited with
  | .nothing document => some document
  | _ => none

end FxPulse.Json
