import TxEnvelope.Hex

/-! A single byte shown as a quoted character. -/

set_option autoImplicit false

namespace TxEnvelope.Inspect

/-- Whether the character of that code, in the first 256, has no glyph of its own. -/
def isUnprintable (code : Nat) : Bool :=
  code < 0x20 || (0x7f ≤ code && code ≤ 0xa0) || code == 0xad

def codeText (code : Nat) : List Char :=
  (Positional.digits 16 code).map Hex.digit

/-- The character with the code of a byte between single quotes, escaped where it would not
show. -/
def quoteByte (byte : UInt8) : List Char :=
  let code := byte.toNat
  let shown : List Char :=
    if code = 0 then ['\\', '0']
    else if code = 0x09 then ['\\', 't']
    else if code = 0x0a then ['\\', 'n']
    else if code = 0x0d then ['\\', 'r']
    else if code = 0x27 then ['\\', '\x27']
    else if code = 0x5c then ['\\', '\\']
    else if isUnprintable code then '\\' :: 'u' :: '\x7b' :: (codeText code ++ ['\x7d'])
    else [Char.ofNat code]
  '\x27' :: (shown ++ ['\x27'])

end TxEnvelope.Inspect
