import DlnTaker.Library.Json

/-! # Conversions of parsed values

What ECMAScript makes of a parsed value where it expects an object, a number, a
big integer or a list of bytes. A missing value is `undefined`.
-/

/-- The text of a number, and the length up to which a typed array can be made. -/
structure Runtime where
  numberToString : Double → JsString
  maxLength : ℕ

namespace Json

variable (runtime : Runtime) (value : Option Json)

def name (text : String) : JsString := units text.toList

def isObject : Json → Bool
  | null | arr _ | obj _ => true
  | _ => false

def truthy : Option Json → Bool
  | none | some null => false
  | some (bool value) => value
  | some (num value) => decide (value ≠ .finite 0 ∧ value ≠ .nan)
  | some (str text) => decide (text ≠ [])
  | some (arr _) | some (obj _) => true

/-- The own property of a value that is neither `undefined` nor `null`. No property that is read is
one of a prototype. -/
def property (key : String) : Option Json :=
  match value with
  | some (obj members) => find? members (name key)
  | _ => none

/-- `value.key` -/
def get (key : String) : Except String (Option Json) :=
  match value with
  | none => .error s!"TypeError: Cannot read properties of undefined (reading '{key}')"
  | some null => .error s!"TypeError: Cannot read properties of null (reading '{key}')"
  | value => .ok (property value key)

/-- `key in value` -/
def hasProperty (key : String) : Except String Bool :=
  match value with
  | some (obj members) => .ok (find? members (name key)).isSome
  | some (arr _) => .ok false
  | _ => .error s!"TypeError: Cannot use 'in' operator to search for '{key}' in a primitive value"

/-! ### Texts of numbers -/

def chars (text : JsString) : List Char := text.map fun unit => Char.ofNat unit.toNat

theorem chars_units {text : List Char} (h : ∀ c ∈ text, c.toNat < 0x80) :
    chars (units text) = text := by
  induction text with
  | nil => rfl
  | cons c text ih =>
    have hc := h c List.mem_cons_self
    have hunit : utf16 c = [UInt16.ofNat c.toNat] := if_pos (by omega)
    have hn : (UInt16.ofNat c.toNat).toNat = c.toNat := by
      rw [UInt16.toNat_ofNat']
      exact Nat.mod_eq_of_lt (by omega)
    have hrest := ih fun c' hc' => h c' (List.mem_cons_of_mem _ hc')
    unfold units chars at hrest ⊢
    rw [List.flatMap_cons, hunit, List.singleton_append, List.map_cons, hrest, hn,
      Char.ofNat_toNat]

def isSpace (c : Char) : Bool :=
  let n := c.toNat
  (9 ≤ n && n ≤ 13) || (0x2000 ≤ n && n ≤ 0x200a) ||
    [0x20, 0xa0, 0x1680, 0x2028, 0x2029, 0x202f, 0x205f, 0x3000, 0xfeff].contains n

def trim (text : List Char) : List Char :=
  ((text.dropWhile isSpace).reverse.dropWhile isSpace).reverse

/-- The base and the digits of a literal that is not decimal. -/
def radixLiteral : List Char → Option (ℕ × List Char)
  | '0' :: 'x' :: text | '0' :: 'X' :: text => some (16, text)
  | '0' :: 'o' :: text | '0' :: 'O' :: text => some (8, text)
  | '0' :: 'b' :: text | '0' :: 'B' :: text => some (2, text)
  | _ => none

def stringToBigInt (text : JsString) : Option ℤ :=
  let text := trim (chars text)
  if text = [] then some 0
  else match radixLiteral text with
    | some (base, digits) => (radixNumber base digits).map Int.ofNat
    | none => signed text

/-- Digits may be missing before or after the point, but not both. -/
def unsignedDecimal (negative : Bool) (text : List Char) : Double :=
  let (whole, text) := text.span Char.isDigit
  let (fraction, text) := match text with
    | '.' :: text => text.span Char.isDigit
    | text => ([], text)
  match radixNumber 10 (whole ++ fraction), exponentPart text with
  | some significand, some exponent => decimal negative significand fraction.length exponent
  | _, _ => .nan

def signedDecimal : List Char → Double
  | '-' :: text => if text = "Infinity".toList then .infinity true else unsignedDecimal true text
  | '+' :: text => if text = "Infinity".toList then .infinity false else unsignedDecimal false text
  | text => if text = "Infinity".toList then .infinity false else unsignedDecimal false text

def stringToNumber (text : JsString) : Double :=
  let text := trim (chars text)
  if text = [] then .finite 0
  else match radixLiteral text with
    | some (base, digits) => ((radixNumber base digits).map fun n => Double.ofRat n).getD .nan
    | none => signedDecimal text

/-! ### Primitive values -/

/-- The text of an object; a member of that name hides the method and cannot be called. -/
def objectToString (members : List (JsString × Json)) : Except String JsString :=
  if (find? members (name "toString")).isSome then
    .error "TypeError: Cannot convert object to primitive value"
  else .ok (name "[object Object]")

mutual

/-- The text of a value in an array that is joined. -/
def itemToString : Json → Except String JsString
  | null => .ok []
  | bool value => .ok (name (if value then "true" else "false"))
  | num value => .ok (runtime.numberToString value)
  | str text => .ok text
  | arr items => arrayToString items
  | obj members => objectToString members

def arrayToString : List Json → Except String JsString
  | [] => .ok []
  | [item] => itemToString item
  | item :: items => do
    let text ← itemToString item
    let rest ← arrayToString items
    return text ++ name "," ++ rest

end

def textToBigInt (text : JsString) : Except String ℤ :=
  match stringToBigInt text with
  | some n => .ok n
  | none => .error "SyntaxError: Cannot convert the text to a BigInt"

/-- `BigInt(value)` -/
def toBigInt : Except String ℤ :=
  match value with
  | none => .error "TypeError: Cannot convert undefined to a BigInt"
  | some null => .error "TypeError: Cannot convert null to a BigInt"
  | some (bool value) => .ok (if value then 1 else 0)
  | some (num (.finite q)) =>
    if q.isInt then .ok q.num
    else .error "RangeError: The number cannot be converted to a BigInt"
  | some (num _) => .error "RangeError: The number cannot be converted to a BigInt"
  | some (str text) => textToBigInt text
  | some (arr items) => arrayToString runtime items >>= textToBigInt
  | some (obj members) => objectToString members >>= textToBigInt

/-- `Number(value)` -/
def toNumber : Except String Double :=
  match value with
  | none => .ok .nan
  | some null => .ok (.finite 0)
  | some (bool value) => .ok (.finite (if value then 1 else 0))
  | some (num value) => .ok value
  | some (str text) => .ok (stringToNumber text)
  | some (arr items) => stringToNumber <$> arrayToString runtime items
  | some (obj members) => stringToNumber <$> objectToString members

/-! ### Bytes -/

/-- The number without its fraction, modulo 256. -/
def toUint8 : Double → UInt8
  | .finite q => UInt8.ofNat ((q.num.tdiv q.den) % 256).toNat
  | _ => 0

/-- The strings over which the iterator of a string goes: pairs of surrogates stay together. -/
def codePoints : JsString → List JsString
  | [] => []
  | high :: low :: text =>
    if 0xd800 ≤ high ∧ high < 0xdc00 ∧ 0xdc00 ≤ low ∧ low < 0xe000 then
      [high, low] :: codePoints text
    else [high] :: codePoints (low :: text)
  | [unit] => [[unit]]

def toLength : Double → ℕ
  | .finite q => min (q.num.tdiv q.den).toNat (2 ^ 53 - 1)
  | .infinity false => 2 ^ 53 - 1
  | _ => 0

def bytesOf (values : List (Option Json)) : Except String (List UInt8) :=
  if runtime.maxLength < values.length then .error "RangeError: Invalid typed array length"
  else values.mapM fun value => toUint8 <$> toNumber runtime value

/-- The elements of an object that is like an array. -/
def elements (members : List (JsString × Json)) : Except String (List (Option Json)) := do
  let length ← toNumber runtime (find? members (name "length"))
  let length := toLength length
  if runtime.maxLength < length then .error "RangeError: Invalid typed array length"
  else return (List.range length).map fun i => find? members (name (toString i))

/-- `Uint8Array.from(value)` -/
def uint8ArrayFrom : Except String (List UInt8) :=
  match value with
  | none => .error "TypeError: undefined is not iterable"
  | some null => .error "TypeError: null is not iterable"
  | some (bool _) | some (num _) => .ok []
  | some (str text) => bytesOf runtime ((codePoints text).map fun text => some (.str text))
  | some (arr items) => bytesOf runtime (items.map some)
  | some (obj members) => elements runtime members >>= bytesOf runtime

theorem get_ok {value : Option Json} {key : String} {result : Option Json} :
    get value key = .ok result ↔
      value ≠ none ∧ value ≠ some null ∧ result = property value key := by
  cases value with
  | none => simp [get]
  | some value =>
    cases value <;> simp [get, eq_comm]

end Json
