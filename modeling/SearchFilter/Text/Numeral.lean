/-!
# Numerals

Decimal numerals with an optional sign, fraction and exponent, and integers in other bases. A numeral stands for an
exact number; `overflows` and `vanishes` tell whether the nearest double-precision number is infinite or zero.
-/

namespace SearchFilter.Text

/-- A signed decimal number: `mantissa` times ten to the power `exponent`. -/
structure Numeral where
  negative : Bool
  mantissa : Nat
  exponent : Int
  deriving DecidableEq, Repr

/-- A sign, if there is one, and what follows it. -/
def splitSign : List Char → Bool × List Char
  | '-' :: cs => (true, cs)
  | '+' :: cs => (false, cs)
  | cs => (false, cs)

/-- The value of at least one digit in `base`, with letters of either case as digits from ten. -/
def digits? (base : Nat) (cs : List Char) : Option Nat :=
  match cs.mapM digit? with
  | some (d :: ds) => some ((d :: ds).foldl (fun n d => base * n + d) 0)
  | _ => none
where
  digit? (c : Char) : Option Nat :=
    let d :=
      if c.isDigit then c.toNat - '0'.toNat
      else if 'a' ≤ c ∧ c ≤ 'z' then c.toNat - 'a'.toNat + 10
      else if 'A' ≤ c ∧ c ≤ 'Z' then c.toNat - 'A'.toNat + 10
      else base
    if d < base then some d else none

/-- An integer in `base` with an optional sign. -/
def integer? (base : Nat) (cs : List Char) : Option Int :=
  let (negative, body) := splitSign cs
  (digits? base body).map fun n => if negative then -(n : Int) else n

/-- The words for infinity and for what is no number. -/
def realWords : List String :=
  [".inf", ".Inf", ".INF", "+.inf", "+.Inf", "+.INF", "-.inf", "-.Inf", "-.INF", ".nan", ".NaN", ".NAN"]

namespace Numeral

/-- An exponent: nothing, or `e` and an integer. -/
def exponent? : List Char → Option Int
  | [] => some 0
  | c :: cs => if c = 'e' ∨ c = 'E' then integer? 10 cs else none

/-- A decimal numeral: digits with at most one point among or around them, and an optional exponent. -/
def ofChars? (cs : List Char) : Option Numeral :=
  let (negative, body) := splitSign cs
  let whole := body.takeWhile Char.isDigit
  let rest := body.dropWhile Char.isDigit
  let (fraction, rest) :=
    match rest with
    | '.' :: more => (more.takeWhile Char.isDigit, more.dropWhile Char.isDigit)
    | _ => ([], rest)
  match whole ++ fraction, exponent? rest with
  | [], _ => none
  | _, none => none
  | digits, some exponent => some ⟨negative, Nat.ofDigitChars 10 digits 0, exponent - fraction.length⟩

/-- Whether the nearest double is infinite: the number is at least halfway between the largest one and 2 to the 1024. -/
def overflows (n : Numeral) : Bool :=
  let size := (Nat.toDigits 10 n.mantissa).length + n.exponent
  if n.mantissa = 0 ∨ size < 300 then false
  else if 400 < size then true
  else
    decide ((Nat.pow 2 1024 - Nat.pow 2 970) * Nat.pow 10 (-n.exponent).toNat
      ≤ n.mantissa * Nat.pow 10 n.exponent.toNat)

/-- Whether the nearest double is zero: the number is at most half of the least one above it, 2 to the -1074. -/
def vanishes (n : Numeral) : Bool :=
  let size := (Nat.toDigits 10 n.mantissa).length + n.exponent
  if n.mantissa = 0 then true
  else if -300 < size then false
  else if size < -400 then true
  else decide (n.mantissa * Nat.pow 2 1075 ≤ Nat.pow 10 (-n.exponent).toNat)

end Numeral

end SearchFilter.Text
