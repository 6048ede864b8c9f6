import ChartParsing.Text.Printable
import ChartParsing.Text.ExtendingMark

/-!
# Quoted text

A quoted text stands between double quotes.  Inside, the quote, the backslash
and four controls have an escape of two characters; a character that cannot be
seen on its own is written by its code point in hexadecimal; every other
character stands for itself.
-/

namespace ChartParsing.Text

def escapeByCode (c : Char) : List Char :=
  ['\\', 'u', '\x7b'] ++ Nat.toDigits 16 c.toNat ++ ['\x7d']

/-- How one character is written inside quotes. -/
def escape (c : Char) : List Char :=
  if c = '\x00' then ['\\', '0']
  else if c = '\t' then ['\\', 't']
  else if c = '\n' then ['\\', 'n']
  else if c = '\r' then ['\\', 'r']
  else if c = '"' then ['\\', '"']
  else if c = '\\' then ['\\', '\\']
  else if isPrintable c && !isExtendingMark c then [c]
  else escapeByCode c

def quoted (text : String) : String :=
  String.ofList ('"' :: text.toList.flatMap escape ++ ['"'])

end ChartParsing.Text
