import CoolLexer.Text.Digits
import CoolLexer.Toml.Value

/-!
# TOML scalars other than strings

Numbers, booleans and dates are written without blanks, but for the one between a date and a time.
`ofRun?` takes such a run of characters whole.
-/

namespace CoolLexer.Toml.Scalar

/-- A run of digits without its underscores, each of which must stand between two digits. -/
def digits? (base : Nat) (t : Text) : Option Text :=
  let groups := t.splitOn '_'
  if groups.all fun group => !group.isEmpty && group.all (Text.isDigitIn base) then some groups.flatten
  else none

/-- The digits of a decimal number, which has no zero in front. -/
def decimalDigits? (t : Text) : Option Text :=
  match digits? 10 t with
  | some ['0'] => some ['0']
  | some ('0' :: _) => none
  | found => found

/-- A sign, if there is one, and the text after it. -/
def splitSign : Text → Option Bool × Text
  | '+' :: rest => (some false, rest)
  | '-' :: rest => (some true, rest)
  | t => (none, t)

/-- A decimal integer, which may have a sign. -/
def decimalInteger? (t : Text) : Option Int := do
  let (sign, rest) := splitSign t
  let n : Int := Text.decimal (← decimalDigits? rest)
  return if sign = some true then -n else n

/-- An integer in any of its notations, however large. -/
def unboundedInteger? : Text → Option Int
  | '0' :: 'x' :: rest => (digits? 16 rest).map fun digits => Text.number 16 digits
  | '0' :: 'o' :: rest => (digits? 8 rest).map fun digits => Text.number 8 digits
  | '0' :: 'b' :: rest => (digits? 2 rest).map fun digits => Text.number 2 digits
  | t => decimalInteger? t

/-- One more than the greatest integer of 64 bits with a sign. -/
def integerBound : Nat := 9223372036854775808

/-- An integer, of 64 bits with a sign. -/
def integer? (t : Text) : Option Int :=
  (unboundedInteger? t).filter fun n => -(integerBound : Int) ≤ n && n < integerBound

/-- The least number that rounds to no finite double. -/
def overflowBound : Nat := Nat.pow 2 1024 - Nat.pow 2 970

/-- Whether `mantissa` with the decimal point `places` digits from its end, times ten to the
`exponent`, is too large for a double. -/
def overflows (mantissa : Text) (places : Nat) (exponent : Int) : Bool :=
  let digits := mantissa.dropWhile (· == '0')
  let scale := exponent - places
  let magnitude := digits.length + scale
  if digits.isEmpty || magnitude < 300 then false
  else if 310 < magnitude then true
  else if 0 ≤ scale then overflowBound ≤ Text.decimal digits * Nat.pow 10 scale.toNat
  else overflowBound * Nat.pow 10 (-scale).toNat ≤ Text.decimal digits

/-- The exponent of a float, of which `t` is the part after its `e`. -/
def exponent? (t : Text) : Option Int := do
  let (sign, rest) := splitSign t
  let n : Int := Text.decimal (← digits? 10 rest)
  return if sign = some true then -n else n

/-- A float, which has a fraction or an exponent. Above all doubles there is only `inf` by name. -/
def isFloat (t : Text) : Bool :=
  let (sign, t) := splitSign t
  let isPlace := fun c : Char => c.isDigit || c == '_'
  if t = "inf".toList || t = "nan".toList then true
  else
    match decimalDigits? (t.takeWhile isPlace), t.dropWhile isPlace with
    | some whole, '.' :: rest =>
        let exponent := match rest.dropWhile isPlace with
          | [] => some 0
          | c :: tail => if c == 'e' || c == 'E' then exponent? tail else none
        match digits? 10 (rest.takeWhile isPlace), exponent with
        | some fraction, some e =>
            sign = some true || !overflows (whole ++ fraction) fraction.length e
        | _, _ => false
    | some whole, c :: tail =>
        match if c == 'e' || c == 'E' then exponent? tail else none with
        | some e => sign = some true || !overflows whole 0 e
        | none => false
    | _, _ => false

/-- A number of two digits from `low` to `high`, and the text after it. -/
def twoDigits? (low high : Nat) : Text → Option Text
  | a :: b :: rest =>
      if a.isDigit && b.isDigit && low ≤ Text.decimal [a, b] && Text.decimal [a, b] ≤ high then
        some rest
      else none
  | _ => none

def after? (c : Char) : Text → Option Text
  | d :: rest => if c = d then some rest else none
  | [] => none

def daysIn (year month : Nat) : Nat :=
  if month = 2 then
    if year % 4 = 0 && (year % 100 ≠ 0 || year % 400 = 0) then 29 else 28
  else if month = 4 || month = 6 || month = 9 || month = 11 then 30
  else 31

def afterDate? (t : Text) : Option Text := do
  let year := t.take 4
  if year.length = 4 && year.all Char.isDigit then
    let month ← after? '-' (t.drop 4)
    let rest ← twoDigits? 1 12 month
    let day ← after? '-' rest
    twoDigits? 1 (daysIn (Text.decimal year) (Text.decimal (month.take 2))) day
  else none

/-- The text after a time of day, which may have a fraction of a second. -/
def afterTime? (t : Text) : Option Text := do
  let rest ← twoDigits? 0 23 t
  let rest ← twoDigits? 0 59 (← after? ':' rest)
  let rest ← twoDigits? 0 60 (← after? ':' rest)
  match rest with
  | '.' :: fraction =>
      if fraction.head?.any Char.isDigit then some (fraction.dropWhile Char.isDigit) else none
  | _ => some rest

/-- Whether a text is empty or the offset of a time zone. -/
def isOffset : Text → Bool
  | [] => true
  | [c] => c == 'Z' || c == 'z'
  | c :: rest =>
      (c == '+' || c == '-') &&
        (twoDigits? 0 23 rest >>= after? ':' >>= twoDigits? 0 59) == some []

/-- A date, a time, or both; only with both there may be an offset. -/
def isDateTime (t : Text) : Bool :=
  match afterDate? t with
  | some [] => true
  | some (c :: rest) =>
      (c == 'T' || c == 't' || c == ' ') && (afterTime? rest).any isOffset
  | none => afterTime? t == some []

/-- The scalar that a run of characters denotes. -/
def ofRun? (run : Text) : Option Value :=
  if run = "true".toList then some (.boolean true)
  else if run = "false".toList then some (.boolean false)
  else
    match integer? run with
    | some n => some (.integer n)
    | none =>
        if isFloat run then some .float
        else if isDateTime run then some .dateTime
        else none

end CoolLexer.Toml.Scalar
