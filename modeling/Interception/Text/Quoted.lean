/-
Quoted text.

A text is shown between double quotes.  Inside, a backslash precedes the backslash,
the double quote, and the letters that stand for the null character, tab, carriage
return and line feed; any other character without a printed form is shown as its
number in hexadecimal, between braces after `\u`; the rest stand for themselves.
-/
import Interception.Text.Unprintable

namespace Interception.Text

/-- How one character is shown inside quotes. -/
def escape (c : Char) : List Char :=
  if c = '\\' then ['\\', '\\']
  else if c = '"' then ['\\', '"']
  else if c.toNat = 0 then ['\\', '0']
  else if c = '\t' then ['\\', 't']
  else if c = '\r' then ['\\', 'r']
  else if c = '\n' then ['\\', 'n']
  else if isUnprintable c then
    '\\' :: 'u' :: '\x7b' :: (Nat.toDigits 16 c.toNat ++ ['\x7d'])
  else [c]

/-- A text between quotes. -/
def quoted (text : String) : String :=
  String.ofList ('"' :: (text.toList.flatMap escape ++ ['"']))

end Interception.Text
