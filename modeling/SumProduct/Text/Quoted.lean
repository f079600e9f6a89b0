import SumProduct.Text.Combining
import SumProduct.Text.Printable

/-!
# Quoted text

A character or a text between quotes, as messages show it. Whatever could not be
seen or would end the quotation is escaped; the rest stands for itself.
-/

namespace SumProduct.Text

/-- How a character is written between quotes of the given kind. The backslash is
always escaped, and only the quote that delimits the quotation is. -/
def escaped (quote c : Char) : List Char :=
  if c = '\x00' then ['\\', '0']
  else if c = '\t' then ['\\', 't']
  else if c = '\n' then ['\\', 'n']
  else if c = '\r' then ['\\', 'r']
  else if c = '\\' then ['\\', '\\']
  else if c = quote then ['\\', quote]
  else if isPrintable c && !isCombining c then [c]
  else ['\\', 'u', '\x7b'] ++ Nat.toDigits 16 c.toNat ++ ['\x7d']

/-- A character in single quotes. -/
def quotedChar (c : Char) : String :=
  String.ofList ('\'' :: escaped '\'' c ++ ['\''])

/-- A text in double quotes. -/
def quoted (text : String) : String :=
  String.ofList ('"' :: text.toList.flatMap (escaped '"') ++ ['"'])

example : quotedChar '%' = "'%'" ∧ quotedChar '\'' = "'\\''" ∧ quotedChar '"' = "'\"'" := by
  decide +kernel

example : quoted "a'b\"\\\t" = "\"a'b\\\"\\\\\\t\"" := by decide +kernel

-- A filler has no form, a mark has none alone, and a voicing letter has one.
example : quotedChar '\u1160' = "'\\u\x7b1160\x7d'" ∧ quotedChar '\uff9e' = "'\uff9e'" := by
  decide +kernel

example : quotedChar '\u0301' = "'\\u\x7b301\x7d'" := by decide +kernel

end SumProduct.Text
