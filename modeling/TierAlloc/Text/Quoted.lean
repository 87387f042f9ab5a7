import TierAlloc.Text.Unprintable
import TierAlloc.Text.Combining

/-!
# Quoted text

Names appear in messages between double quotes, so that a name with odd
characters in it can be told apart from the words around it. A quote and a
backslash are written with a backslash in front, tab, line feed, carriage return
and NUL by their letters, every other code point that would not print on its own
by its number (`\u{301}`), and all else as it is.
-/
namespace TierAlloc.Text

/-- A code point by its hexadecimal number. -/
def numbered (c : Char) : String :=
  "\\u\x7b" ++ String.ofList (Nat.toDigits 16 c.toNat) ++ "\x7d"

def quotedChar (c : Char) : String :=
  match c with
  | '\x00' => "\\0"
  | '\t' => "\\t"
  | '\n' => "\\n"
  | '\r' => "\\r"
  | '"' => "\\\""
  | '\\' => "\\\\"
  | c =>
    if c.toNat < 0x7f && 0x20 ≤ c.toNat then c.toString
    else if isCombining c || isUnprintable c then numbered c
    else c.toString

def quoted (s : String) : String :=
  "\"" ++ String.join (s.toList.map quotedChar) ++ "\""

end TierAlloc.Text
