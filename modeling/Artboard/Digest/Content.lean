import Artboard.Digest.Fnv
import Artboard.Digest.Sha256

/-!
# Content hashes

Assets are known by the digest of their bytes. A SHA-256 key is plain hexadecimal; the key of the
weaker FNV-1a digest starts with `h_`, so that it can be told apart.
-/

namespace Artboard

open Text (Bytes)

inductive DigestAlgorithm where
  | sha256
  | fnv1a
deriving Repr, DecidableEq

/-- The key under which an asset is cached and uploaded. -/
structure ContentHash where
  algorithm : DigestAlgorithm
  key : String
deriving Repr, DecidableEq

namespace ContentHash

/-- The strong hash of some bytes. -/
def of (bytes : Bytes) : ContentHash := ⟨.sha256, Text.hex (Sha256.digest bytes)⟩

/-- The weak hash, without leading zeros. -/
def fnv1a (bytes : Bytes) : ContentHash :=
  ⟨.fnv1a, "h_" ++ String.ofList (Nat.toDigits 16 (Fnv.digest bytes).toNat)⟩

end ContentHash

end Artboard
