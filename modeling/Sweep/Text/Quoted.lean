import Sweep.Text.Classes
import Sweep.Text.Numeral

/-!
# Quoted text in messages

A message shows the text it complains about between double quotes, in such a way that **what is
shown is visible**: quotes, backslashes and the usual controls are escaped, and any other character
without a glyph of its own is given by its code point in braces.
-/

set_option autoImplicit false

namespace Sweep.Text

def visible (c : Char) : List Char :=
  if c = '"' then ['\\', '"']
  else if c = '\\' then ['\\', '\\']
  else if c = '\n' then ['\\', 'n']
  else if c = '\r' then ['\\', 'r']
  else if c = '\t' then ['\\', 't']
  else if c.toNat = 0 then ['\\', '0']
  else if isCombining c || !isPrintable c then
    ['\\', 'u', '\x7b'] ++ hex 0 c.toNat ++ ['\x7d']
  else [c]

/-- Text between double quotes, every character visible. -/
def quote (s : String) : String :=
  String.ofList ('"' :: s.toList.flatMap visible ++ ['"'])

end Sweep.Text
