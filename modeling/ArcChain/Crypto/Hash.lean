/-
The 256-bit hash type of the chain and the cryptographic primitives the
consensus code calls.

`Hash256` holds 32 bytes; they are kept as one big-endian word, so the
byte-wise order of the source (`sort_by_key(|h| h.0)`) is the numeric one.
BLAKE3, the signature schemes and the `bincode` form of a signature come
from third-party packages: they are the fields of `Crypto`, and every
result that needs more of them than being functions says so in a
hypothesis.
-/
import ArcChain.Lib.Word

namespace ArcChain

open Word List

/-- `arc_crypto::Hash256`: 32 bytes, as a big-endian word. -/
structure Hash256 where
  bits : BitVec 256
deriving DecidableEq, Repr

namespace Hash256

def zero : Hash256 := ⟨0⟩

/-- The 32 bytes of the hash (`self.0`). -/
def toBytes (h : Hash256) : List UInt8 := beBytes 32 h.bits.toNat

/-- The value of the bytes read as one big-endian number. -/
def toNat (h : Hash256) : Nat := h.bits.toNat

theorem toNat_injective : Function.Injective toNat := by
  intro h₁ h₂ h
  exact congrArg Hash256.mk (BitVec.eq_of_toNat_eq h)

instance : LinearOrder Hash256 := LinearOrder.lift' toNat toNat_injective

@[simp] theorem length_toBytes (h : Hash256) : h.toBytes.length = 32 := by
  simp [toBytes]

/-- The hash with the given 32 bytes. -/
def ofBytes (bytes : List UInt8) : Hash256 := ⟨BitVec.ofNat 256 (leValue bytes.reverse)⟩

theorem ofBytes_toBytes (h : Hash256) : ofBytes h.toBytes = h := by
  have hwidth : 256 ^ 32 = 2 ^ 256 := by decide
  rw [ofBytes, toBytes, beBytes, reverse_reverse, leValue_leBytes, hwidth,
    Nat.mod_eq_of_lt h.bits.isLt, BitVec.ofNat_toNat, BitVec.setWidth_eq]

theorem toBytes_ofBytes {bytes : List UInt8} (h : bytes.length = 32) :
    (ofBytes bytes).toBytes = bytes := by
  have hlt : leValue bytes.reverse < 2 ^ 256 := by
    have hbound := leValue_lt bytes.reverse
    rwa [length_reverse, h] at hbound
  rw [toBytes, ofBytes, BitVec.toNat_ofNat, Nat.mod_eq_of_lt hlt, beBytes]
  have hback := leBytes_leValue bytes.reverse
  rw [length_reverse, h] at hback
  rw [hback, reverse_reverse]

theorem toBytes_injective : Function.Injective toBytes := by
  intro h₁ h₂ h
  rw [← ofBytes_toBytes h₁, h, ofBytes_toBytes]

/-- One hex digit, lower case. -/
def hexDigit (n : Nat) : Char :=
  if n < 10 then Char.ofNat (48 + n) else Char.ofNat (87 + n)

/-- Two lower-case digits per byte. -/
def toHex (h : Hash256) : String :=
  String.ofList (h.toBytes.flatMap fun b => [hexDigit (b.toNat / 16), hexDigit (b.toNat % 16)])

/-- The `Display` form used in error texts. -/
def display (h : Hash256) : String := "0x" ++ h.toHex

/-- The `Debug` form: the first sixteen digits only. -/
def debug (h : Hash256) : String := "0x" ++ String.ofList (h.toHex.toList.take 16)

end Hash256

/-- An address is the hash of a public key. -/
abbrev Address := Hash256

/-- The scheme and its bytes. -/
inductive Signature where
  | ed25519 (publicKey : List UInt8) (signature : List UInt8)
  | secp256k1 (signature : List UInt8)
  | mlDsa65 (publicKey : List UInt8) (signature : List UInt8)
  | falcon512 (publicKey : List UInt8) (signature : List UInt8)
deriving DecidableEq, Repr

/-- The third-party primitives. -/
class Crypto where
  /-- `blake3::hash`. -/
  blake3 : List UInt8 → Hash256
  /-- `blake3::Hasher::new_derive_key(context)` over the concatenated updates. -/
  blake3DeriveKey : String → List UInt8 → Hash256
  /-- `KeyPair`, with its address and `sign`. -/
  KeyPair : Type
  keyPairAddress : KeyPair → Address
  /-- `KeyPair::sign`, with the text of its error. -/
  sign : KeyPair → Hash256 → Except String Signature
  /-- `Signature::verify(message_hash, expected_address).is_ok()`. -/
  verify : Signature → Hash256 → Address → Bool
  /-- `bincode::serialize(&sig).unwrap_or_default()` and `bincode::deserialize`. -/
  serializeSignature : Signature → List UInt8
  deserializeSignature : List UInt8 → Option Signature

variable [Crypto]

def hashBytes (data : List UInt8) : Hash256 := Crypto.blake3 data

def hashPair (left right : Hash256) : Hash256 :=
  Crypto.blake3 (left.toBytes ++ right.toBytes)

end ArcChain
