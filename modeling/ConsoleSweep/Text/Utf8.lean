/-
  UTF-8: characters as bytes and back.

  `decode` refuses a byte row that no text has, and tells the place: the byte that
  cannot start a character, or the start of one whose next byte does not fit or is
  missing.
-/
import ConsoleSweep.Text.Quoted

namespace ConsoleSweep.Text

/-- The contents of a file. -/
abbrev Bytes := List UInt8

/-- The bytes of a character. -/
def encodeChar (c : Char) : Bytes :=
  let n := c.toNat
  if n < 0x80 then [UInt8.ofNat n]
  else if n < 0x800 then [UInt8.ofNat (0xC0 + n / 0x40), UInt8.ofNat (0x80 + n % 0x40)]
  else if n < 0x10000 then
    [UInt8.ofNat (0xE0 + n / 0x1000), UInt8.ofNat (0x80 + n / 0x40 % 0x40),
      UInt8.ofNat (0x80 + n % 0x40)]
  else
    [UInt8.ofNat (0xF0 + n / 0x40000), UInt8.ofNat (0x80 + n / 0x1000 % 0x40),
      UInt8.ofNat (0x80 + n / 0x40 % 0x40), UInt8.ofNat (0x80 + n % 0x40)]

/-- The bytes of a text. -/
def encode (text : List Char) : Bytes :=
  text.flatMap encodeChar

/-- Why a row of bytes is not a text. -/
inductive Utf8Reason where
  | badStart
  | badContinuation
  | cutOff
  deriving DecidableEq, Repr

/-- Where a row of bytes stops being a text: the first byte of the part at fault, its place and
the length of that part. -/
structure Utf8Error where
  byte : UInt8
  place : Nat
  length : Nat
  reason : Utf8Reason
  deriving DecidableEq, Repr

/-- The wording of the reason. -/
def Utf8Reason.message : Utf8Reason → String
  | .badStart => "invalid start byte"
  | .badContinuation => "invalid continuation byte"
  | .cutOff => "unexpected end of data"

/-- The wording of the error. -/
def Utf8Error.message (e : Utf8Error) : String :=
  let place :=
    if e.length = 1 then
      "byte 0x" ++ String.ofList (hex 2 e.byte.toNat) ++ " in position " ++ ofNat e.place
    else "bytes in position " ++ ofNat e.place ++ "-" ++ ofNat (e.place + e.length - 1)
  "'utf-8' codec can't decode " ++ place ++ ": " ++ e.reason.message

/-- A byte that continues a character. -/
def isTail (b : UInt8) : Bool :=
  0x80 ≤ b.toNat && b.toNat ≤ 0xBF

/-- Whether `b` may be the second byte of a character that starts with `a`. -/
def fitsSecond (a b : UInt8) : Bool :=
  isTail b &&
    (if a.toNat = 0xE0 then 0xA0 ≤ b.toNat
     else if a.toNat = 0xED then b.toNat < 0xA0
     else if a.toNat = 0xF0 then 0x90 ≤ b.toNat
     else if a.toNat = 0xF4 then b.toNat < 0x90
     else true)

/-- The number of bytes of a character that starts with `a`. -/
def sizeOf? (a : UInt8) : Option Nat :=
  let n := a.toNat
  if n < 0x80 then some 1
  else if n < 0xC2 then none
  else if n < 0xE0 then some 2
  else if n < 0xF0 then some 3
  else if n < 0xF5 then some 4
  else none

/-- Puts a character before a decoded text. -/
def consDecoded (n : Nat) : Except Utf8Error (List Char) → Except Utf8Error (List Char)
  | .ok cs => .ok (Char.ofNat n :: cs)
  | .error e => .error e

/-- The text of a row of bytes that starts at the given place of a file. -/
def decodeAt (place : Nat) : Bytes → Except Utf8Error (List Char)
  | [] => .ok []
  | a :: rest =>
    match sizeOf? a with
    | none => .error ⟨a, place, 1, .badStart⟩
    | some 1 => consDecoded a.toNat (decodeAt (place + 1) rest)
    | some size =>
      match rest with
      | [] => .error ⟨a, place, 1, .cutOff⟩
      | b :: rest =>
        if !fitsSecond a b then .error ⟨a, place, 1, .badContinuation⟩
        else if size = 2 then
          consDecoded ((a.toNat - 0xC0) * 0x40 + (b.toNat - 0x80)) (decodeAt (place + 2) rest)
        else
          match rest with
          | [] => .error ⟨a, place, 2, .cutOff⟩
          | c :: rest =>
            if !isTail c then .error ⟨a, place, 2, .badContinuation⟩
            else if size = 3 then
              consDecoded ((a.toNat - 0xE0) * 0x1000 + (b.toNat - 0x80) * 0x40 + (c.toNat - 0x80))
                (decodeAt (place + 3) rest)
            else
              match rest with
              | [] => .error ⟨a, place, 3, .cutOff⟩
              | d :: rest =>
                if !isTail d then .error ⟨a, place, 3, .badContinuation⟩
                else
                  consDecoded
                    ((a.toNat - 0xF0) * 0x40000 + (b.toNat - 0x80) * 0x1000 +
                      (c.toNat - 0x80) * 0x40 + (d.toNat - 0x80))
                    (decodeAt (place + 4) rest)

/-- The text of a row of bytes. -/
def decode (bytes : Bytes) : Except Utf8Error (List Char) :=
  decodeAt 0 bytes

/-- The number of bytes of a string. -/
def byteLength (s : String) : Nat :=
  (encode s.toList).length

end ConsoleSweep.Text
