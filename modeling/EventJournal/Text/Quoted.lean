import EventJournal.Text.Hex
import EventJournal.Text.Printable

/-!
Text between quotes, as messages show a value that was refused: what cannot be seen is written by
its number.
-/
namespace EventJournal.Text

def quotedChar (c : Char) : List Char :=
  if c == '"' then ['\\', '"']
  else if c == '\\' then ['\\', '\\']
  else if c == '\n' then ['\\', 'n']
  else if c == '\r' then ['\\', 'r']
  else if c == '\t' then ['\\', 't']
  else if c.toNat == 0 then ['\\', '0']
  else if isPlain c then [c]
  else ['\\', 'u', '{'] ++ hexDigits (hexWidth c.toNat) c.toNat ++ ['}']

def quoted (s : String) : String :=
  String.ofList ('"' :: s.toList.flatMap quotedChar ++ ['"'])

end EventJournal.Text
