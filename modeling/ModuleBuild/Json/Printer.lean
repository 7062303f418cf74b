import ModuleBuild.Json
import ModuleBuild.Number.Shortest

/-!
# Writing JSON

The compact form: no blanks, members in the order in which the object holds them. A string escapes
the quote, the backslash and the control characters below the space, with a short form where there
is one. A floating-point number always shows a point or an exponent, so that it does not read back as
an integer; an exponent always shows its sign.
-/

namespace ModuleBuild.Json

/-! ## Numbers -/

/-- The form in which floating-point numbers are written. -/
structure FloatLayout where
  /-- The greatest number of places before the point without an exponent. -/
  placesBefore : Int
  /-- The greatest number of zeros between the point and the first digit without an exponent. -/
  zerosBehind : Int

/-- Numbers from `0.00001` up to sixteen places before the point have no exponent. -/
def floatLayout : FloatLayout := ⟨16, 4⟩

/-- The decimal number `digits * 10 ^ exponent` in a layout. -/
def writeDecimal (layout : FloatLayout) (d : Number.Decimal) : String :=
  let digits := Nat.toDigits 10 d.digits
  -- the place of the point, counted from the first digit
  let point : Int := digits.length + d.exponent
  let zeros (n : Int) : List Char := List.replicate n.toNat '0'
  String.ofList <|
    if 0 ≤ d.exponent ∧ point ≤ layout.placesBefore then
      digits ++ zeros d.exponent ++ ['.', '0']
    else if 0 < point ∧ point ≤ layout.placesBefore then
      digits.take point.toNat ++ '.' :: digits.drop point.toNat
    else if -layout.zerosBehind ≤ point ∧ point ≤ 0 then
      ['0', '.'] ++ zeros (-point) ++ digits
    else
      let fraction := if digits.length = 1 then [] else '.' :: digits.drop 1
      let sign := if 0 < point then ['+'] else []
      digits.take 1 ++ fraction ++ 'e' :: sign ++ (toString (point - 1)).toList

/-- The text of a number. -/
def Number.write : Json.Number → String
  | .integer n => toString n
  | .floating negative m =>
    let sign := if negative then "-" else ""
    sign ++ if m.significand = 0 then "0.0" else writeDecimal floatLayout m.shortest

/-! ## Strings -/

/-- The digit of value `n` in hexadecimal notation. -/
def hexDigit (n : Nat) : Char := Nat.digitChar n

/-- A character as it stands in a quoted string. -/
def escape (c : Char) : List Char :=
  if c = '"' then ['\\', '"']
  else if c = '\\' then ['\\', '\\']
  else if c = '\n' then ['\\', 'n']
  else if c = '\r' then ['\\', 'r']
  else if c = '\t' then ['\\', 't']
  else if c = '\x08' then ['\\', 'b']
  else if c = '\x0c' then ['\\', 'f']
  else if c.toNat < 0x20 then
    ['\\', 'u', '0', '0', hexDigit (c.toNat / 16), hexDigit (c.toNat % 16)]
  else [c]

/-- A string in quotes. -/
def quote (s : String) : String :=
  String.ofList ('"' :: (s.toList.flatMap escape ++ ['"']))

/-! ## Values -/

mutual

/-- The compact text of a value. -/
def write : Json → String
  | null => "null"
  | bool b => if b then "true" else "false"
  | number n => n.write
  | string s => quote s
  | array items => "[" ++ ",".intercalate (writeItems items) ++ "]"
  | object members => "\x7b" ++ ",".intercalate (writeMembers members) ++ "\x7d"

/-- The texts of the items of a sequence. -/
def writeItems : List Json → List String
  | [] => []
  | item :: items => write item :: writeItems items

/-- The texts of the members of an object. -/
def writeMembers : List (String × Json) → List String
  | [] => []
  | (key, value) :: members => (quote key ++ ":" ++ write value) :: writeMembers members

end

end ModuleBuild.Json
