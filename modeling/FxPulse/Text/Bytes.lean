import FxPulse.Text.Split

/-!
# `Text/Bytes.lean` — text in bytes

Feeds and addresses come as bytes. They are text only where the bytes are UTF-8.
-/

set_option autoImplicit false

namespace FxPulse.Text

def toBytes (text : String) : List UInt8 := text.toUTF8.toList

/-- The text that the bytes spell, if they do. -/
def ofBytes? (bytes : List UInt8) : Option String := String.fromUTF8? (ByteArray.mk bytes.toArray)

def hexValue? (byte : UInt8) : Option UInt8 :=
  if 48 ≤ byte && byte ≤ 57 then some (byte - 48)
  else if 65 ≤ byte && byte ≤ 70 then some (byte - 55)
  else if 97 ≤ byte && byte ≤ 102 then some (byte - 87)
  else none

/-- Replaces each percent sign with two hexadecimal digits by the byte they name. A percent sign that
is followed by anything else stands for itself. -/
def unescape : List UInt8 → List UInt8
  | [] => []
  | 37 :: high :: low :: rest =>
    match hexValue? high, hexValue? low with
    | some h, some l => (16 * h + l) :: unescape rest
    | _, _ => 37 :: unescape (high :: low :: rest)
  | byte :: rest => byte :: unescape rest

end FxPulse.Text
