/-
# PageDesign.Text.Quoted -- names in messages

A name that a message refuses is shown between quotes.  Single quotes are used unless the
name holds one and no double quote.  The quote in use, backslashes and characters that cannot
be shown are escaped.
-/
import PageDesign.Text.Hex
import PageDesign.Text.Printable

namespace PageDesign.Text

/-- One character of a quoted name. -/
def quotedChar (quote c : Char) : List Char :=
  if c = quote ∨ c = '\\' then ['\\', c]
  else if c = '\n' then ['\\', 'n']
  else if c = '\r' then ['\\', 'r']
  else if c = '\t' then ['\\', 't']
  else if isPrintable c then [c]
  else if c.toNat < 256 then '\\' :: 'x' :: hexDigits 2 c.toNat
  else if c.toNat < 65536 then '\\' :: 'u' :: hexDigits 4 c.toNat
  else '\\' :: 'U' :: hexDigits 8 c.toNat

/-- A name between quotes. -/
def quoted (s : String) : String :=
  let cs := s.toList
  let quote := if cs.contains '\x27' && !cs.contains '\x22' then '\x22' else '\x27'
  String.ofList (quote :: cs.flatMap (quotedChar quote) ++ [quote])

end PageDesign.Text
