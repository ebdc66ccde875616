import Sequencer.Text.Blank
import Sequencer.Text.Layout

/-!
Names in quotation marks, as error messages list them. Quotes, backslashes and characters that
leave no mark of their own on the page are written as escapes.
-/
namespace Sequencer.Text

/-- Controls, format characters, combining marks and private characters. -/
def unmarked : List (Nat × Nat) :=
  [(0x00, 0x1F), (0x7F, 0x9F), (0xAD, 0xAD), (0x300, 0x36F), (0x483, 0x489), (0x591, 0x5BD),
   (0x600, 0x605), (0x610, 0x61A), (0x61C, 0x61C), (0x64B, 0x65F), (0x6DD, 0x6DD), (0x70F, 0x70F),
   (0x180B, 0x180F), (0x1AB0, 0x1ACE), (0x1DC0, 0x1DFF), (0x200B, 0x200F), (0x202A, 0x202E),
   (0x2060, 0x206F), (0x20D0, 0x20F0), (0x302A, 0x302F), (0x3099, 0x309A), (0xE000, 0xF8FF),
   (0xFE00, 0xFE0F), (0xFE20, 0xFE2F), (0xFEFF, 0xFEFF), (0xFFF0, 0xFFFB), (0xFFFE, 0xFFFF),
   (0xE0000, 0x10FFFF)]

def escape (c : Char) : String :=
  match c with
  | '\t' => "\\t"
  | '\n' => "\\n"
  | '\r' => "\\r"
  | '"' => "\\\""
  | '\\' => "\\\\"
  | ' ' => " "
  | _ =>
    if c.toNat = 0 then "\\0"
    else if isBlank c || inRanges unmarked c then "\\u\x7b" ++ hexDigits c.toNat ++ "\x7d"
    else String.singleton c

def quote (text : String) : String := "\"" ++ String.join (text.toList.map escape) ++ "\""

def quoteAll (texts : List String) : String := bracketed (texts.map quote)

end Sequencer.Text
