import SourceChunking.Text.Basic

/-! # Bytes and characters

Source offsets count UTF-8 bytes. Encoding is total: a surrogate is written in the
three-byte form of its number, which is no well-formed sequence. Decoding accepts
any bytes and writes one replacement character for each maximal part that cannot be
continued to a well-formed sequence. The decoder is a machine that holds at most
one unfinished sequence: its value so far, how many octets are still due, and
between which bounds the next one has to lie.
-/
namespace SourceChunking.Text

def encodePoint : CodePoint → List UInt8
  | .scalar c => String.utf8EncodeChar c
  | .surrogate n =>
    [0xed, UInt8.ofNat (0xa0 + n / 0x40), UInt8.ofNat (0x80 + n % 0x40)]

def encode (t : Text) : List UInt8 := t.flatMap encodePoint

def replacement : CodePoint := Char.ofNat 0xfffd

inductive Pending where
  | idle
  | due (value left low high : Nat)
deriving Repr, DecidableEq

/-- What a byte that starts a sequence yields. The bounds on the second octet
exclude overlong forms, surrogates and values past the last code point. -/
def openSequence (b : Nat) : Text × Pending :=
  if b < 0x80 then ([Char.ofNat b], .idle)
  else if b < 0xc2 then ([replacement], .idle)
  else if b < 0xe0 then ([], .due (b - 0xc0) 1 0x80 0xbf)
  else if b < 0xf0 then
    ([], .due (b - 0xe0) 2 (if b = 0xe0 then 0xa0 else 0x80) (if b = 0xed then 0x9f else 0xbf))
  else if b < 0xf5 then
    ([], .due (b - 0xf0) 3 (if b = 0xf0 then 0x90 else 0x80) (if b = 0xf4 then 0x8f else 0xbf))
  else ([replacement], .idle)

def decodeByte : Pending → Nat → Text × Pending
  | .idle, b => openSequence b
  | .due value left low high, b =>
    if low ≤ b ∧ b ≤ high then
      let value := value * 64 + (b - 0x80)
      if left ≤ 1 then ([Char.ofNat value], .idle) else ([], .due value (left - 1) 0x80 0xbf)
    else
      let (out, pending) := openSequence b
      (replacement :: out, pending)

def decodeFrom : Pending → List UInt8 → Text
  | .idle, [] => []
  | .due .., [] => [replacement]
  | pending, b :: rest =>
    let (out, pending) := decodeByte pending b.toNat
    out ++ decodeFrom pending rest

/-- The text of the bytes, with a replacement character for each ill-formed part. -/
def decode (bytes : List UInt8) : Text := decodeFrom .idle bytes

/-- A carriage return, alone or before a newline, reads as one newline. -/
def universalNewlines : Text → Text
  | [] => []
  | .scalar '\r' :: .scalar '\n' :: rest => '\n' :: universalNewlines rest
  | c :: rest => (if c = '\r' then '\n' else c) :: universalNewlines rest

end SourceChunking.Text
