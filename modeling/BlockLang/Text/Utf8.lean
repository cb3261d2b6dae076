import BlockLang.Text.Quoted

/-!
# Texts from bytes

A decoder takes the bytes of a text one by one, and puts a character behind the text
when its last byte has come.  A byte that cannot stand where it stands is a fault:
it starts no character, or it does not carry on the character that is open.  So is
an end of the bytes that leaves a character open.  The first two bytes of a surrogate
are kept until it is seen what comes after them, and nothing may.

Bytes come in pieces of `pieceSize`, and the place of a fault is counted from the
start of its piece.  A character that is open where a piece ends is counted to the
piece after it; one that is still open when all bytes have come is a piece alone.
-/

namespace BlockLang.Text

/-- What is wrong with bytes that are no text. -/
inductive DecodeReason where
  | noStart
  | noContinuation
  | endsEarly
  deriving Repr, DecidableEq

namespace DecodeReason

/-- What is wrong, as text. -/
def describe : DecodeReason → String
  | noStart => "invalid start byte"
  | noContinuation => "invalid continuation byte"
  | endsEarly => "unexpected end of data"

end DecodeReason

/-- Why bytes are no text: the bytes at fault, the place of the first of them, and what is wrong
with them. -/
structure DecodeFault where
  bytes : List Nat
  position : Nat
  reason : DecodeReason
  deriving Repr, DecidableEq

namespace DecodeFault

/-- The bytes at fault with their place. -/
def subject (f : DecodeFault) : String :=
  match f.bytes with
  | [b] => "byte 0x" ++ hex 2 b ++ " in position " ++ toString f.position
  | bytes =>
    "bytes in position " ++ toString f.position ++ "-" ++ toString (f.position + bytes.length - 1)

/-- The complaint about bytes that are no text. -/
def message (f : DecodeFault) : String :=
  "'utf-8' codec can't decode " ++ f.subject ++ ": " ++ f.reason.describe

end DecodeFault

/-- Whether a byte carries a character on. -/
def isContinuation (b : Nat) : Bool :=
  0x80 ≤ b && b ≤ 0xbf

/-- Whether `b` may come behind `a`, the first byte of a character.  The shortest form is required,
and what lies past the last code point is left out. -/
def mayFollow (a b : Nat) : Bool :=
  isContinuation b
    && (a != 0xe0 || 0xa0 ≤ b) && (a != 0xf0 || 0x90 ≤ b) && (a != 0xf4 || b ≤ 0x8f)

/-- Whether bytes start a surrogate, which is no character. -/
def startsSurrogate : List Nat → Bool
  | [a, b] => a = 0xed && 0xa0 ≤ b
  | _ => false

/-- The number of bytes of a character that starts with a byte; `0` if none does. -/
def widthOf (a : Nat) : Nat :=
  if a < 0x80 then 1
  else if a < 0xc2 then 0
  else if a < 0xe0 then 2
  else if a < 0xf0 then 3
  else if a < 0xf5 then 4
  else 0

/-- The part of the code point that the first byte of a character gives. -/
def leadBits (a : Nat) : Nat :=
  if a < 0x80 then a
  else if a < 0xe0 then a - 0xc0
  else if a < 0xf0 then a - 0xe0
  else a - 0xf0

/-- The character that bytes stand for: each byte after the first adds six bits. -/
def charOfBytes : List Nat → Char
  | [] => '\x00'
  | a :: rest => Char.ofNat (rest.foldl (fun n b => n * 0x40 + (b - 0x80)) (leadBits a))

/-- The number of bytes in a piece. -/
def pieceSize : Nat :=
  8192

/-- A decoder: the text so far, the bytes of the character that is open, the place of the first of
them in the piece, and the number of bytes that the piece has given. -/
structure Decoder where
  text : String := ""
  opened : List Nat := []
  position : Nat := 0
  taken : Nat := 0
  deriving Repr, DecidableEq

namespace Decoder

/-- Whether a byte may come behind those of the open character. -/
def accepts : List Nat → Nat → Bool
  | [], b => widthOf b != 0
  | [a], b => mayFollow a b
  | bytes, b => isContinuation b && !startsSurrogate bytes

/-- Whether bytes are a whole character. -/
def isWhole (bytes : List Nat) : Bool :=
  bytes.head?.any (fun a => widthOf a = bytes.length)

/-- Goes on to the next piece when the piece at hand has given all its bytes. -/
def turn (d : Decoder) : Decoder :=
  if d.taken = pieceSize then { d with position := 0, taken := 0 } else d

/-- Puts an accepted byte behind those of the open character, which it may complete. -/
def extend (d : Decoder) (b : Nat) : Decoder :=
  let bytes := d.opened ++ [b]
  if isWhole bytes then
    { text := d.text.push (charOfBytes bytes), opened := [],
      position := d.position + bytes.length, taken := d.taken + 1 }
  else { d with opened := bytes, taken := d.taken + 1 }

/-- The fault of a character that stays open.  Of a surrogate only the first byte is at fault. -/
def unfinished (bytes : List Nat) (position : Nat) (reason : DecodeReason) : DecodeFault :=
  if startsSurrogate bytes then ⟨bytes.take 1, position, .noContinuation⟩
  else ⟨bytes, position, reason⟩

/-- **Takes one byte.** -/
def push (d : Decoder) (b : Nat) : Except DecodeFault Decoder :=
  let d := d.turn
  if accepts d.opened b then .ok (d.extend b)
  else if d.opened.isEmpty then .error ⟨[b], d.position, .noStart⟩
  else .error (unfinished d.opened d.position .noContinuation)

/-- The text when all bytes have come. -/
def finish (d : Decoder) : Except DecodeFault String :=
  if d.opened.isEmpty then .ok d.text else .error (unfinished d.opened 0 .endsEarly)

end Decoder

/-- **The text of bytes.** -/
def decodeUtf8 (bytes : ByteArray) : Except DecodeFault String := do
  (← bytes.toList.foldlM (fun d b => d.push b.toNat) ({} : Decoder)).finish

end BlockLang.Text
