import BurnerTelemetry.Text.Markless

/-!
Text in double quotes, so that every character of it can be seen: quotes and backslashes get a
backslash in front, the usual controls their letter, and every other markless character the
hexadecimal number of its code point.
-/
namespace BurnerTelemetry.Text

def escape (c : Char) : List Char :=
  match c with
  | '"' => ['\\', '"']
  | '\\' => ['\\', '\\']
  | '\n' => ['\\', 'n']
  | '\r' => ['\\', 'r']
  | '\t' => ['\\', 't']
  | '\x00' => ['\\', '0']
  | _ => if isMarkless c then ['\\', 'u', '\x7b'] ++ Nat.toDigits 16 c.toNat ++ ['\x7d'] else [c]

def quote (s : String) : String :=
  String.ofList ('"' :: s.toList.flatMap escape ++ ['"'])

end BurnerTelemetry.Text
