import SqlFixture.Text.Printable

/-
**Quoted text.**

A quoted text stands in double quotes. The quote and the backslash take a backslash, the tab, the
line ends and the null character have letters, and every other character without a glyph is written
by its number.

* `Quoted.escape`: the written form of one character;
* `Quoted.enclose`: a text in double quotes, for any written form of its characters;
* `Quoted.quote`: the written form of a text.
-/

namespace SqlFixture.Quoted

/-- A number in lower-case hexadecimal digits, without leading zeros. -/
def hexadecimal (number : Nat) : String := String.ofList (Nat.toDigits 16 number)

/-- The written form of one character. -/
def escape (character : Char) : String :=
  if character = '\x00' then "\\0"
  else if character = '\t' then "\\t"
  else if character = '\r' then "\\r"
  else if character = '\n' then "\\n"
  else if character = '\\' then "\\\\"
  else if character = '"' then "\\\""
  else if Printable.isHidden character then
    "\\u\x7b" ++ hexadecimal character.toNat ++ "\x7d"
  else character.toString

/-- A text between double quotes, with each character in the form that `form` gives it. -/
def enclose (form : Char → String) (text : String) : String :=
  text.toList.foldl (fun written character => written ++ form character) "\"" ++ "\""

/-- The text between double quotes, escaped. -/
def quote (text : String) : String := enclose escape text

example : quote "a\"b\\\t" = "\"a\\\"b\\\\\\t\"" := by decide +kernel

example : quote "\u200b" = "\"\\u\x7b200b\x7d\"" := by decide +kernel

end SqlFixture.Quoted
