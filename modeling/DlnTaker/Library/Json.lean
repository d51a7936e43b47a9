import DlnTaker.Library.BigEndian
import DlnTaker.Library.Double

/-! # JSON texts

The values of JSON and a reader of them as `JSON.parse` of ECMAScript is one: an
automaton splits the text into tokens, and another one with a stack of open
arrays and objects builds the value. A string is a sequence of UTF-16 units.
-/

abbrev JsString := List UInt16

/-- The members of an object are listed as they are written, repeated names included. -/
inductive Json
  | null
  | bool (value : Bool)
  | num (value : Double)
  | str (text : JsString)
  | arr (items : List Json)
  | obj (members : List (JsString × Json))

namespace Json

def utf16 (c : Char) : JsString :=
  if c.toNat < 0x10000 then [UInt16.ofNat c.toNat]
  else
    let rest := c.toNat - 0x10000
    [UInt16.ofNat (0xd800 + rest / 0x400), UInt16.ofNat (0xdc00 + rest % 0x400)]

def units (text : List Char) : JsString := text.flatMap utf16

/-- The value of the last member of that name. -/
def find? (members : List (JsString × Json)) (name : JsString) : Option Json :=
  ((members.filter fun m => m.1 = name).getLast?).map Prod.snd

/-! ### Numbers -/

/-- A number in the given base, without a sign. -/
def radixNumber (base : ℕ) (text : List Char) : Option ℕ :=
  if text = [] then none
  else text.foldlM (fun n c => do
    let d ← Hex.digit c
    if d < base then some (n * base + d) else none) 0

def decimal (negative : Bool) (significand fractionLength : ℕ) (exponent : ℤ) : Double :=
  let sign : ℚ := if negative then -1 else 1
  .ofRat (sign * significand * 10 ^ (exponent - fractionLength))

def signed (text : List Char) : Option ℤ :=
  match text with
  | '-' :: text => (radixNumber 10 text).map fun n => -(n : ℤ)
  | '+' :: text => (radixNumber 10 text).map fun n => (n : ℤ)
  | text => (radixNumber 10 text).map fun n => (n : ℤ)

/-- What follows the digits of a number: its exponent. -/
def exponentPart (text : List Char) : Option ℤ :=
  match text with
  | [] => some 0
  | e :: text => if e = 'e' ∨ e = 'E' then signed text else none

def number (text : List Char) : Option Double :=
  let (negative, text) := match text with
    | '-' :: text => (true, text)
    | text => (false, text)
  let (whole, text) := text.span Char.isDigit
  if whole = [] ∨ (1 < whole.length ∧ whole.head? = some '0') then none
  else
    match text with
    | '.' :: text => do
      let (fraction, text) := text.span Char.isDigit
      if fraction = [] then none
      else
        let significand ← radixNumber 10 (whole ++ fraction)
        let exponent ← exponentPart text
        return decimal negative significand fraction.length exponent
    | text => do
      let significand ← radixNumber 10 whole
      let exponent ← exponentPart text
      return decimal negative significand 0 exponent

/-! ### Tokens -/

inductive Token
  | lbrace | rbrace | lbracket | rbracket | colon | comma
  | scalar (value : Json)

/-- Where the lexer is: between tokens, or in a token of which this has been read. -/
inductive Lexing
  | idle
  | word (rest : List Char) (value : Json)
  | string (read : JsString)
  | escape (read : JsString)
  | code (read : JsString) (left : ℕ) (value : ℕ)
  | number (read : List Char)

def isNumberChar (c : Char) : Bool := c.isDigit || ['-', '+', '.', 'e', 'E'].contains c

namespace Lexing

def idleStep (c : Char) : Option (Lexing × List Token) :=
  match c with
  | ' ' | '\t' | '\n' | '\r' => some (idle, [])
  | '{' => some (idle, [.lbrace])
  | '}' => some (idle, [.rbrace])
  | '[' => some (idle, [.lbracket])
  | ']' => some (idle, [.rbracket])
  | ':' => some (idle, [.colon])
  | ',' => some (idle, [.comma])
  | '"' => some (string [], [])
  | 't' => some (word ['r', 'u', 'e'] (.bool true), [])
  | 'f' => some (word ['a', 'l', 's', 'e'] (.bool false), [])
  | 'n' => some (word ['u', 'l', 'l'] .null, [])
  | c => if c.isDigit || c = '-' then some (number [c], []) else none

def escapeStep (read : JsString) (c : Char) : Option Lexing :=
  match c with
  | '"' | '\\' | '/' => some (string (read ++ utf16 c))
  | 'b' => some (string (read ++ [8]))
  | 'f' => some (string (read ++ [12]))
  | 'n' => some (string (read ++ [10]))
  | 'r' => some (string (read ++ [13]))
  | 't' => some (string (read ++ [9]))
  | 'u' => some (code read 4 0)
  | _ => none

/-- The states after a character, and the tokens that it has completed. -/
def step : Lexing → Char → Option (Lexing × List Token)
  | idle, c => idleStep c
  | word [] _, _ => none
  | word [l] value, c => if c = l then some (idle, [.scalar value]) else none
  | word (l :: rest) value, c => if c = l then some (word rest value, []) else none
  | string read, c =>
    if c = '"' then some (idle, [.scalar (.str read)])
    else if c = '\\' then some (escape read, [])
    else if c < ' ' then none
    else some (string (read ++ utf16 c), [])
  | escape read, c => (escapeStep read c).map fun state => (state, [])
  | code read left value, c => do
    let d ← Hex.digit c
    let value := value * 16 + d
    if left = 1 then some (string (read ++ [UInt16.ofNat value]), [])
    else some (code read (left - 1) value, [])
  | number read, c =>
    if isNumberChar c then some (number (read ++ [c]), [])
    else do
      let x ← Json.number read
      let (state, tokens) ← idleStep c
      return (state, .scalar (.num x) :: tokens)

/-- The tokens of a text that is read from a state on. -/
def lex : Lexing → List Char → Option (List Token)
  | idle, [] => some []
  | number read, [] => (Json.number read).map fun x => [.scalar (.num x)]
  | _, [] => none
  | state, c :: text => do
    let (state, tokens) ← state.step c
    let rest ← state.lex text
    return tokens ++ rest

end Lexing

/-! ### Values -/

/-- An array or an object that is open, with what is complete of it. -/
inductive Frame
  | arr (items : List Json)
  | obj (members : List (JsString × Json))
  | member (members : List (JsString × Json)) (name : JsString)

/-- What may come next in the innermost open array or object. -/
inductive Expecting
  | value | firstItem | name | firstName | colon | separator
  | nothing (result : Json)

structure Parsing where
  expecting : Expecting
  stack : List Frame

namespace Parsing

/-- A value is complete. -/
def complete (value : Json) : List Frame → Option Parsing
  | [] => some ⟨.nothing value, []⟩
  | .arr items :: stack => some ⟨.separator, .arr (items ++ [value]) :: stack⟩
  | .member members name :: stack =>
    some ⟨.separator, .obj (members ++ [(name, value)]) :: stack⟩
  | .obj _ :: _ => none

def open? (token : Token) (stack : List Frame) : Option Parsing :=
  match token with
  | .scalar value => complete value stack
  | .lbracket => some ⟨.firstItem, .arr [] :: stack⟩
  | .lbrace => some ⟨.firstName, .obj [] :: stack⟩
  | _ => none

def step : Parsing → Token → Option Parsing
  | ⟨.value, stack⟩, token => open? token stack
  | ⟨.firstItem, .arr items :: stack⟩, .rbracket => complete (.arr items) stack
  | ⟨.firstItem, stack⟩, token => open? token stack
  | ⟨.firstName, .obj members :: stack⟩, .rbrace => complete (.obj members) stack
  | ⟨.firstName, .obj members :: stack⟩, .scalar (.str name) =>
    some ⟨.colon, .member members name :: stack⟩
  | ⟨.name, .obj members :: stack⟩, .scalar (.str name) =>
    some ⟨.colon, .member members name :: stack⟩
  | ⟨.colon, stack⟩, .colon => some ⟨.value, stack⟩
  | ⟨.separator, .arr items :: stack⟩, .comma => some ⟨.value, .arr items :: stack⟩
  | ⟨.separator, .arr items :: stack⟩, .rbracket => complete (.arr items) stack
  | ⟨.separator, .obj members :: stack⟩, .comma => some ⟨.name, .obj members :: stack⟩
  | ⟨.separator, .obj members :: stack⟩, .rbrace => complete (.obj members) stack
  | _, _ => none

end Parsing

/-- `JSON.parse`; there is no value where it throws. -/
def parse (text : List Char) : Option Json := do
  let tokens ← Lexing.idle.lex text
  let last ← tokens.foldlM Parsing.step ⟨.value, []⟩
  match last.expecting with
  | .nothing result => some result
  | _ => none

end Json
