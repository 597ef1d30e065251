/-
An executable instance of the third-party primitives, for evaluating runs
of the engine on concrete inputs.  Hashing is a polynomial checksum modulo
2^256 and a signature names its key and message, so the instance is not
secure; the general theorems assume of the primitives only what they state.
-/
import ArcChain.Lib.Codec
import ArcChain.Crypto.Hash

namespace ArcChain

namespace Concrete

/-- The checksum of a byte string: Horner's rule in base 65537. -/
def checksum (bytes : List UInt8) : Hash256 :=
  ⟨BitVec.ofNat 256 (bytes.foldl (fun acc b => (acc * 65537 + b.toNat + 1) % 2 ^ 256) 0)⟩

/-- A hash as its bytes. -/
def hashCodec : Codec Hash256 :=
  .fixed 32 Hash256.toBytes (fun bytes => some (.ofBytes bytes)) Hash256.length_toBytes
    (fun h => congrArg some h.ofBytes_toBytes)

/-- The signature of `key` over `message`. -/
def signature (key message : Hash256) : Signature := .ed25519 key.toBytes message.toBytes

def encode : Signature → List UInt8
  | .ed25519 publicKey signature => publicKey ++ signature
  | _ => []

def decode (bytes : List UInt8) : Option Signature :=
  if bytes.length = 64 then some (.ed25519 (bytes.take 32) (bytes.drop 32)) else none

end Concrete

/-- The executable instance. -/
def concreteCrypto : Crypto where
  blake3 := Concrete.checksum
  blake3DeriveKey context bytes := Concrete.checksum (context.toUTF8.toList ++ bytes)
  KeyPair := Address
  keyPairAddress key := key
  sign key message := .ok (Concrete.signature key message)
  verify signature message address := decide (signature = Concrete.signature address message)
  serializeSignature := Concrete.encode
  deserializeSignature := Concrete.decode

end ArcChain
