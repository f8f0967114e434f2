import NoteShell.Chart.Picture

/-!
# Pictures as PNG files

A picture is written as a PNG file without compression, and the file as an address that holds all of
its bytes in base 64.

## Main definitions

* `crc32`, `adler32`: the check sums of chunks and of the data in them.
* `Picture.toPng`: the file.
* `base64`: bytes in base 64.
* `Picture.dataAddress`: the address under which a picture is shown.
-/

namespace NoteShell

/-! ### Check sums -/

/-- One step of the division behind `crc32`. -/
def crcShift (c : UInt32) : UInt32 := if c &&& 1 = 1 then (c >>> 1) ^^^ 0xEDB88320 else c >>> 1

/-- The remainders of all single bytes. -/
def crcTable : Array UInt32 :=
  (Array.range 256).map fun n => (List.range 8).foldl (fun c _ => crcShift c) n.toUInt32

/-- The cyclic redundancy check of 32 bits. -/
def crc32 (bytes : ByteArray) : UInt32 :=
  let table := crcTable
  let c := bytes.foldl
    (fun c b => table.getD ((c ^^^ b.toUInt32) &&& 0xFF).toNat 0 ^^^ (c >>> 8)) 0xFFFFFFFF
  c ^^^ 0xFFFFFFFF

/-- The check sum that pairs the sum of all bytes with the sum of these sums. -/
def adler32 (bytes : ByteArray) : UInt32 :=
  let (a, b) := bytes.foldl
    (fun ((a, b) : UInt32 × UInt32) byte =>
      let a := (a + byte.toUInt32) % 65521
      (a, (b + a) % 65521)) (1, 0)
  b <<< 16 ||| a

/-! ### Chunks -/

/-- The four bytes of a number, the highest first. -/
def bigEndian (n : UInt32) : ByteArray :=
  ⟨#[(n >>> 24).toUInt8, (n >>> 16).toUInt8, (n >>> 8).toUInt8, n.toUInt8]⟩

/-- The two bytes of a number, the lowest first. -/
private def littleEndian (n : UInt16) : ByteArray := ⟨#[n.toUInt8, (n >>> 8).toUInt8]⟩

/-- A chunk of a file: its length, its name, its data and the check sum of the latter two. -/
def pngChunk (name : String) (data : ByteArray) : ByteArray :=
  let body := name.toUTF8 ++ data
  bigEndian data.size.toUInt32 ++ body ++ bigEndian (crc32 body)

/-- The most bytes that a stored block holds. -/
def blockSize : Nat := 65535

/-- Data as stored blocks, of which `left` more are needed after the one that begins at `start`. -/
private def storedBlocks (data : ByteArray) : (left start : Nat) → ByteArray
  | left, start =>
    let block := data.extract start (start + blockSize)
    let size := block.size.toUInt16
    let head : ByteArray := ⟨#[if left = 0 then 1 else 0]⟩
    let written := head ++ littleEndian size ++ littleEndian (size ^^^ 0xFFFF) ++ block
    match left with
    | 0 => written
    | left + 1 => written ++ storedBlocks data left (start + blockSize)

/-- Data in the form that a reader decompresses. -/
def storedStream (data : ByteArray) : ByteArray :=
  ⟨#[0x78, 0x01]⟩ ++ storedBlocks data ((data.size - 1) / blockSize) 0 ++ bigEndian (adler32 data)

namespace Picture

/-- The rows of a picture, each after the mark of a row that is written as it is. -/
def rowBytes (p : Picture) : ByteArray :=
  (List.range p.height).foldl (fun out y =>
    (p.pixels.extract (y * p.width) ((y + 1) * p.width)).foldl
      (fun out c => ((out.push c.red).push c.green).push c.blue) (out.push 0)) .empty

/-- The file that shows a picture. -/
def toPng (p : Picture) : ByteArray :=
  let format : ByteArray := ⟨#[8, 2, 0, 0, 0]⟩
  ⟨#[0x89, 0x50, 0x4E, 0x47, 0x0D, 0x0A, 0x1A, 0x0A]⟩ ++
    pngChunk "IHDR" (bigEndian p.width.toUInt32 ++ bigEndian p.height.toUInt32 ++ format) ++
    pngChunk "IDAT" (storedStream p.rowBytes) ++ pngChunk "IEND" .empty

end Picture

/-! ### Addresses -/

/-- A digit in base 64. -/
def base64Digit (n : Nat) : Char :=
  if n < 26 then Char.ofNat ('A'.toNat + n)
  else if n < 52 then Char.ofNat ('a'.toNat + (n - 26))
  else if n < 62 then Char.ofNat ('0'.toNat + (n - 52))
  else if n = 62 then '+'
  else '/'

/-- A text with the digits of some bytes written after it, three bytes making four digits. -/
private def writeBase64 (out : String) : List UInt8 → String
  | a :: b :: c :: rest =>
    let n := (a.toNat * 256 + b.toNat) * 256 + c.toNat
    writeBase64 ((((out.push (base64Digit (n / 262144))).push (base64Digit (n / 4096 % 64))).push
      (base64Digit (n / 64 % 64))).push (base64Digit (n % 64))) rest
  | [a, b] =>
    let n := a.toNat * 256 + b.toNat
    (((out.push (base64Digit (n / 1024))).push (base64Digit (n / 16 % 64))).push
      (base64Digit (n % 16 * 4))).push '='
  | [a] =>
    ((out.push (base64Digit (a.toNat / 4))).push (base64Digit (a.toNat % 4 * 16))) ++ "=="
  | [] => out

/-- Bytes in base 64. -/
def base64 (bytes : ByteArray) : String := writeBase64 "" bytes.toList

/-- The address that holds the file of a picture. -/
def Picture.dataAddress (p : Picture) : String := "data:image/png;base64," ++ base64 p.toPng

end NoteShell
