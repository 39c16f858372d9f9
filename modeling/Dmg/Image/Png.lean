import Dmg.Image.Checksum
import Dmg.Video.Shade

/-!
Pictures as files of the portable network graphics format: eight bits a channel, red, green, blue
and opacity, no filters, and the pixel data stored without compression.
-/

namespace Dmg.Png

def bigEndian (word : UInt32) : Array UInt8 :=
  #[(word >>> 24).toUInt8, (word >>> 16).toUInt8, (word >>> 8).toUInt8, word.toUInt8]

def littleEndian (length : Nat) : Array UInt8 :=
  #[UInt8.ofNat length, UInt8.ofNat (length / 256)]

def signature : Array UInt8 := #[0x89, 0x50, 0x4E, 0x47, 0x0D, 0x0A, 0x1A, 0x0A]

def chunk (name : String) (content : Array UInt8) : Array UInt8 :=
  let body := name.toUTF8.data ++ content
  bigEndian (UInt32.ofNat content.size) ++ body ++ bigEndian (cyclicCheck body)

def blockSize : Nat := 65535

def storedBlocks (bytes : Array UInt8) (offset : Nat) : Array UInt8 :=
  let length := min blockSize (bytes.size - offset)
  let last := bytes.size ≤ offset + blockSize
  let block := #[if last then 1 else 0] ++ littleEndian length ++
    littleEndian (blockSize - length) ++ bytes.extract offset (offset + length)
  if last then block else block ++ storedBlocks bytes (offset + blockSize)
termination_by bytes.size - offset
decreasing_by
  simp only [blockSize] at *
  omega

def stream (bytes : Array UInt8) : Array UInt8 :=
  #[0x78, 0x01] ++ storedBlocks bytes 0 ++ bigEndian (sumPair bytes)

def scanlines (picture : Picture) : Array UInt8 :=
  let length := 4 * picture.width
  Nat.fold picture.height (fun row _ bytes =>
    bytes.push 0 ++ picture.bytes.extract (length * row) (length * (row + 1))) #[]

def header (picture : Picture) : Array UInt8 :=
  bigEndian (UInt32.ofNat picture.width) ++ bigEndian (UInt32.ofNat picture.height) ++
    #[8, 6, 0, 0, 0]

def encode (picture : Picture) : Array UInt8 :=
  signature ++ chunk "IHDR" (header picture) ++ chunk "IDAT" (stream (scanlines picture)) ++
    chunk "IEND" #[]

end Dmg.Png
