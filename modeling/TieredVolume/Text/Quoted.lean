import TieredVolume.Text.Invisible
import TieredVolume.Text.Extending

/-!
Quoted text, in which every character can be seen and stands alone. The double quote, the backslash
and the usual controls have short escapes; a character that leaves no mark of its own or that would
join the one before it is written by its code point.
-/
namespace TieredVolume
namespace Quoted

/-- Whether a character is seen, apart from its neighbours. -/
def standsAlone (c : Char) : Bool := !Invisible.isInvisible c && !Extending.isExtending c

/-- The escape of a character, or the character itself. -/
def escape (c : Char) : List Char :=
  match c with
  | '\x00' => ['\\', '0']
  | '\t' => ['\\', 't']
  | '\n' => ['\\', 'n']
  | '\r' => ['\\', 'r']
  | '"' => ['\\', '"']
  | '\\' => ['\\', '\\']
  | c => if standsAlone c then [c] else ['\\', 'u', '\x7b'] ++ Nat.toDigits 16 c.toNat ++ ['\x7d']

/-- Text between quotes. -/
def encode (text : String) : String :=
  String.ofList ('"' :: text.toList.flatMap escape ++ ['"'])

example : encode "it's in" = "\"it's in\"" := by decide +kernel

example : encode "\"\t\x7fe\u0301" = "\"\\\"\\t\\u\x7b7f\x7de\\u\x7b301\x7d\"" := by
  decide +kernel

end Quoted
end TieredVolume
