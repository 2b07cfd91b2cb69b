/-!
# Floating-point numerals

A numeral is read exactly and rounded once, to the nearest floating-point number with ties to the
even mantissa. Decimal numerals may have an exponent of ten; hexadecimal ones have an exponent of
two. Underscores may separate digits.
-/

namespace GridFit.Numeral

/-- `num / den`, rounded to the nearest integer, ties to even. -/
def divNearest (num den : Nat) : Nat :=
  let q := num / den
  let r := num % den
  if 2 * r < den then q
  else if den < 2 * r then q + 1
  else q + q % 2

/-- The floating-point number nearest to `num / den`. The exponent of its last bit is chosen so that
the mantissa has 53 bits, or fewer if the number is too small for that. -/
def nearest (num den : Nat) : Float :=
  if num = 0 then 0
  else
    let guess : Int := (num.log2 : Int) - den.log2 - 52
    let atLeast (e : Int) : Bool := den <<< (52 + e).toNat ≤ num <<< (-(52 + e)).toNat
    let exponent := max (if atLeast guess then guess else guess - 1) (-1074)
    let mantissa := divNearest (num <<< (-exponent).toNat) (den <<< exponent.toNat)
    Float.scaleB (Float.ofNat mantissa) exponent

/-- The floating-point number nearest to `m * base ^ e`. -/
def nearestPower (base m : Nat) (e : Int) : Float :=
  if 0 ≤ e then nearest (m * base.pow e.toNat) 1 else nearest m (base.pow (-e).toNat)

inductive Base where
  | ten
  | sixteen
deriving DecidableEq, Repr

def Base.digit? (b : Base) (c : Char) : Option Nat :=
  if c.isDigit then some (c.toNat - '0'.toNat)
  else
    let l := c.toLower
    if b = .sixteen ∧ 'a' ≤ l ∧ l ≤ 'f' then some (l.toNat - 'a'.toNat + 10) else none

structure Digits where
  value : Nat := 0
  any : Bool := false
  point : Bool := false
  places : Nat := 0
deriving DecidableEq, Repr

/-- Reads digits, underscores and at most one point. Returns what follows. -/
def readDigits (b : Base) (radix : Nat) (acc : Digits) : List Char → Digits × List Char
  | [] => (acc, [])
  | c :: rest =>
    if c = '_' then readDigits b radix acc rest
    else if c = '.' ∧ !acc.point then readDigits b radix { acc with point := true } rest
    else
      match b.digit? c with
      | none => (acc, c :: rest)
      | some d =>
        readDigits b radix
          { acc with
            value := acc.value * radix + d
            any := true
            places := if acc.point then acc.places + 1 else acc.places }
          rest

/-- Reads the digits of an exponent. An exponent that is far too large is cut off. -/
def readExponent (acc : Nat) : List Char → Nat × List Char
  | [] => (acc, [])
  | c :: rest =>
    if c = '_' then readExponent acc rest
    else if c.isDigit then
      readExponent (if acc < 10000 then acc * 10 + (c.toNat - '0'.toNat) else acc) rest
    else (acc, c :: rest)

/-- Removes a sign. Returns whether it is a minus. -/
def readSign : List Char → Bool × List Char
  | '+' :: rest => (false, rest)
  | '-' :: rest => (true, rest)
  | s => (false, s)

def exponent? (s : List Char) : Option Int :=
  let (negative, s) := readSign s
  match s with
  | c :: _ =>
    if c.isDigit then
      let (e, rest) := readExponent 0 s
      if rest.isEmpty then some (if negative then -(e : Int) else e) else none
    else none
  | [] => none

/-- What was seen last, for the rule that an underscore stands between two digits. -/
inductive Seen where
  | digit
  | underscore
  | other
deriving DecidableEq, Repr

/-- Whether every underscore stands between two digits. -/
def separated (b : Base) (seen : Seen) : List Char → Bool
  | [] => seen ≠ .underscore
  | c :: rest =>
    if (b.digit? c).isSome then separated b .digit rest
    else if c = '_' then seen = .digit && separated b .underscore rest
    else seen ≠ .underscore && separated b .other rest

/-- Whether the underscores of a numeral without sign stand between digits. The mark of a base
counts as a digit. -/
def underscoresOk (s : List Char) : Bool :=
  match s with
  | '0' :: c :: rest =>
    let l := c.toLower
    if l = 'x' then separated .sixteen .digit rest
    else if l = 'b' ∨ l = 'o' then separated .ten .digit rest
    else separated .ten .other s
  | _ => separated .ten .other s

/-- The value of `digits` followed by an exponent part. A hexadecimal numeral must have one. -/
def value? (b : Base) (digits : Digits) (rest : List Char) : Option Float :=
  if !digits.any then none
  else
    match b, rest with
    | .ten, [] => some (nearestPower 10 digits.value (-digits.places))
    | .ten, c :: rest =>
      if c.toLower = 'e' then
        (exponent? rest).map fun e => nearestPower 10 digits.value (e - digits.places)
      else none
    | .sixteen, [] => none
    | .sixteen, c :: rest =>
      if c.toLower = 'p' then
        (exponent? rest).map fun e => nearestPower 2 digits.value (e - 4 * digits.places)
      else none

def magnitude? (s : List Char) : Option Float :=
  if underscoresOk s then
    match s with
    | '0' :: x :: c :: rest =>
      if x.toLower = 'x' then
        let (digits, rest) := readDigits .sixteen 16 {} (c :: rest)
        value? .sixteen digits rest
      else decimal
    | _ => decimal
  else none
where
  decimal : Option Float :=
    let (digits, rest) := readDigits .ten 10 {} s
    value? .ten digits rest

/-- The value of a numeral. Infinity and NaN can be named; a finite numeral must not be too
large. -/
def toFloat? (s : String) : Option Float :=
  let lower := String.ofList (s.toList.map Char.toLower)
  let (negative, rest) := readSign s.toList
  let unsigned := String.ofList (rest.map Char.toLower)
  if lower = "nan" then some (0 / 0)
  else if unsigned = "inf" ∨ unsigned = "infinity" then some (if negative then -1 / 0 else 1 / 0)
  else
    match magnitude? rest with
    | none => none
    | some f => if f.isInf then none else some (if negative then -f else f)

end GridFit.Numeral
