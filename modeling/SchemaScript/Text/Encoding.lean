/-!
# Texts from bytes

A script is read from bytes. Valid UTF-8 is taken as it is. Otherwise a byte order mark
decides: one of UTF-8 makes the bytes unreadable, one of UTF-16 is dropped and the rest read
so, and without a mark every byte is a character of Windows-1252.
-/

namespace SchemaScript
namespace Text

/-- The characters of the bytes from 0x80 to 0x9F in Windows-1252. The others stand for the
code points of their own value, and so do five of these. -/
def windows1252Upper : List Nat :=
  [0x20AC, 0x81, 0x201A, 0x192, 0x201E, 0x2026, 0x2020, 0x2021, 0x2C6, 0x2030, 0x160, 0x2039,
    0x152, 0x8D, 0x17D, 0x8F, 0x90, 0x2018, 0x2019, 0x201C, 0x201D, 0x2022, 0x2013, 0x2014,
    0x2DC, 0x2122, 0x161, 0x203A, 0x153, 0x9D, 0x17E, 0x178]

/-- The character of a byte in Windows-1252. -/
def windows1252Char (b : UInt8) : Char :=
  let n := b.toNat
  if 0x80 ≤ n ∧ n < 0xA0 then Char.ofNat (windows1252Upper.getD (n - 0x80) n) else Char.ofNat n

/-- The code units of 16 bits that bytes make up, with the first byte of a pair in the high
or in the low place. An odd byte makes up none. -/
def units16? (bigEndian : Bool) : List UInt8 → Option (List Nat)
  | [] => some []
  | [_] => none
  | a :: b :: rest =>
    let unit := if bigEndian then a.toNat * 256 + b.toNat else b.toNat * 256 + a.toNat
    (units16? bigEndian rest).map (unit :: ·)

/-- The characters of code units of 16 bits. Half of a surrogate pair is none. -/
def utf16? : List Nat → Option (List Char)
  | [] => some []
  | n :: rest =>
    if 0xD800 ≤ n ∧ n ≤ 0xDBFF then
      match rest with
      | m :: more =>
        if 0xDC00 ≤ m ∧ m ≤ 0xDFFF then
          (utf16? more).map (Char.ofNat (0x10000 + (n - 0xD800) * 0x400 + (m - 0xDC00)) :: ·)
        else none
      | [] => none
    else if 0xDC00 ≤ n ∧ n ≤ 0xDFFF then none
    else (utf16? rest).map (Char.ofNat n :: ·)

/-- The text of bytes that are not UTF-8. -/
def decodeOther? (bytes : List UInt8) : Option String :=
  match bytes with
  | 0xEF :: 0xBB :: 0xBF :: _ => none
  | 0xFF :: 0xFE :: rest => ((units16? false rest).bind utf16?).map String.ofList
  | 0xFE :: 0xFF :: rest => ((units16? true rest).bind utf16?).map String.ofList
  | _ => some (String.ofList (bytes.map windows1252Char))

/-- The text of the bytes of a script. -/
def decodeScript? (bytes : ByteArray) : Option String :=
  match String.fromUTF8? bytes with
  | some text => some text
  | none => decodeOther? bytes.toList

end Text
end SchemaScript
