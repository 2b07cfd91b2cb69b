import GridFit.Text.Hexadecimal
import GridFit.Text.Printable

/-!
# Quoted text

Characters and texts between quotes. The quote, the backslash and whatever is not printable are
escaped.
-/

namespace GridFit.Quoted

/-- The letter that stands for a control character after a backslash. -/
def letter? (c : Char) : Option Char :=
  match c.toNat with
  | 7 => some 'a'
  | 8 => some 'b'
  | 9 => some 't'
  | 10 => some 'n'
  | 11 => some 'v'
  | 12 => some 'f'
  | 13 => some 'r'
  | _ => none

def escape (quote c : Char) : List Char :=
  if c = quote ∨ c = '\\' then ['\\', c]
  else if Printable.isPrintable c then [c]
  else
    match letter? c with
    | some l => ['\\', l]
    | none =>
      if c.toNat < 0x20 ∨ c.toNat = 0x7f then '\\' :: 'x' :: Hexadecimal.digits 2 c.toNat
      else if c.toNat < 0x10000 then '\\' :: 'u' :: Hexadecimal.digits 4 c.toNat
      else '\\' :: 'U' :: Hexadecimal.digits 8 c.toNat

def quote (q : Char) (s : List Char) : String := String.ofList (q :: (s.flatMap (escape q) ++ [q]))

def char (c : Char) : String := quote '\'' [c]

def text (s : String) : String := quote '"' s.toList

end GridFit.Quoted
