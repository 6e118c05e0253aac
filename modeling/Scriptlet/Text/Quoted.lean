namespace Scriptlet.Quoted

/-- The code point in lowercase hexadecimal, without leading zeros. -/
def escapeCode (c : Char) : List Char :=
  '\\' :: 'u' :: '\x7b' :: Nat.toDigits 16 c.toNat ++ ['\x7d']

/-- Which characters show as they are depends on the version of Unicode. -/
def escape (shows : Char → Bool) (c : Char) : List Char :=
  match c with
  | '\x22' => ['\\', '\x22']
  | '\\' => ['\\', '\\']
  | '\n' => ['\\', 'n']
  | '\r' => ['\\', 'r']
  | '\t' => ['\\', 't']
  | '\x00' => ['\\', '0']
  | c => if shows c then [c] else escapeCode c

/-- A string between double quotes, where characters that would not show are escaped. -/
def encode (shows : Char → Bool) (s : String) : String :=
  String.ofList ('\x22' :: s.toList.flatMap (escape shows) ++ ['\x22'])

end Scriptlet.Quoted
