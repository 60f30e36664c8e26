import Artboard.Text.Utf8

/-!
# FNV-1a

The 32-bit digest of Fowler, Noll and Vo: each byte is combined by exclusive or, then the word is
multiplied by an odd prime, modulo `2 ^ 32`.
-/

namespace Artboard.Fnv

open Text (Bytes)

def offset : UInt32 := 0x811c9dc5

def prime : UInt32 := 0x01000193

def round (hash : UInt32) (b : UInt8) : UInt32 := (hash ^^^ b.toUInt32) * prime

def digest (bytes : Bytes) : UInt32 := bytes.foldl round offset

end Artboard.Fnv
