/-
Self-delimiting byte codecs.  A codec carries its own round trip: decoding
an encoding that is followed by anything gives the value back and leaves
what followed.  Codecs compose: pairs, counted lists, finite maps, and images
under an injection with a partial inverse.
-/
import ArcChain.Lib.AssocMap
import ArcChain.Lib.Word

/-- A codec for `α`: what `encode` writes, `decode` reads back and no more. -/
structure Codec (α : Type*) where
  encode : α → List UInt8
  decode : List UInt8 → Option (α × List UInt8)
  decode_encode : ∀ a rest, decode (encode a ++ rest) = some (a, rest)

namespace Codec

open List

variable {α β : Type*}

/-- Read a number written in unary: ones closed by a zero. -/
def decodeNat : List UInt8 → Option (Nat × List UInt8)
  | [] => none
  | b :: rest => if b = 0 then some (0, rest) else (decodeNat rest).map fun p => (p.1 + 1, p.2)

/-- Natural numbers in unary. -/
def nat : Codec Nat where
  encode n := List.replicate n 1 ++ [0]
  decode := decodeNat
  decode_encode n rest := by
    induction n with
    | zero => rfl
    | succ n ih =>
      rw [List.replicate_succ, List.cons_append, List.cons_append, decodeNat, if_neg (by decide),
        ih]
      rfl

/-- A fixed number of raw bytes, for values given by their bytes. -/
def fixed (width : Nat) (toBytes : α → List UInt8) (ofBytes : List UInt8 → Option α)
    (hlength : ∀ a, (toBytes a).length = width) (hinv : ∀ a, ofBytes (toBytes a) = some a) :
    Codec α where
  encode := toBytes
  decode input := (ofBytes (input.take width)).map fun a => (a, input.drop width)
  decode_encode a rest := by
    rw [List.take_left' (hlength a), List.drop_left' (hlength a), hinv a]
    rfl

/-- One value after the other. -/
def pair (c : Codec α) (d : Codec β) : Codec (α × β) where
  encode p := c.encode p.1 ++ d.encode p.2
  decode input :=
    (c.decode input).bind fun p => (d.decode p.2).map fun q => ((p.1, q.1), q.2)
  decode_encode p rest := by
    rw [List.append_assoc, c.decode_encode]
    show (d.decode (d.encode p.2 ++ rest)).map _ = _
    rw [d.decode_encode]
    rfl

/-- Read `count` values. -/
def decodeMany (c : Codec α) : Nat → List UInt8 → Option (List α × List UInt8)
  | 0, input => some ([], input)
  | count + 1, input =>
    (c.decode input).bind fun p =>
      (c.decodeMany count p.2).map fun q => (p.1 :: q.1, q.2)

theorem decodeMany_flatMap (c : Codec α) (l : List α) (rest : List UInt8) :
    c.decodeMany l.length (l.flatMap c.encode ++ rest) = some (l, rest) := by
  induction l with
  | nil => rfl
  | cons a l ih =>
    rw [flatMap_cons, append_assoc, length_cons, decodeMany, c.decode_encode]
    show (c.decodeMany l.length (l.flatMap c.encode ++ rest)).map _ = _
    rw [ih]
    rfl

/-- A list, counted. -/
def list (c : Codec α) : Codec (List α) where
  encode l := nat.encode l.length ++ l.flatMap c.encode
  decode input := (nat.decode input).bind fun p => c.decodeMany p.1 p.2
  decode_encode l rest := by
    rw [List.append_assoc, nat.decode_encode]
    exact c.decodeMany_flatMap l rest

/-- The values that `into` sends to codable ones and `back` recovers. -/
def via (c : Codec β) (into : α → β) (back : β → Option α)
    (hback : ∀ a, back (into a) = some a) : Codec α where
  encode a := c.encode (into a)
  decode input := (c.decode input).bind fun p => (back p.1).map fun a => (a, p.2)
  decode_encode a rest := by
    rw [c.decode_encode]
    show (back (into a)).map _ = _
    rw [hback]
    rfl

/-- An optional value, as a list of at most one. -/
def option (c : Codec α) : Codec (Option α) :=
  c.list.via Option.toList (fun l => some l.head?) (by rintro (_ | a) <;> rfl)

/-- The number of bytes a number needs. -/
def byteLength (n : Nat) : Nat := Nat.log2 n / 8 + 1

theorem lt_byteLength (n : Nat) : n < 256 ^ byteLength n := by
  have hlog : n < 2 ^ (Nat.log2 n + 1) := Nat.lt_log2_self
  have hbits : Nat.log2 n + 1 ≤ 8 * byteLength n := by
    unfold byteLength
    omega
  have hpow : (256 : Nat) ^ byteLength n = 2 ^ (8 * byteLength n) := by
    rw [Nat.pow_mul]
  rw [hpow]
  exact hlog.trans_le (Nat.pow_le_pow_right (by decide) hbits)

/-- Natural numbers in base 256, counted. -/
def binary : Codec Nat where
  encode n := nat.encode (byteLength n) ++ Word.leBytes (byteLength n) n
  decode input := (nat.decode input).bind fun p =>
    some (Word.leValue (p.2.take p.1), p.2.drop p.1)
  decode_encode n rest := by
    have hwidth : (Word.leBytes (byteLength n) n).length = byteLength n := Word.length_leBytes _ _
    rw [List.append_assoc, nat.decode_encode]
    show some (Word.leValue ((Word.leBytes (byteLength n) n ++ rest).take (byteLength n)),
      (Word.leBytes (byteLength n) n ++ rest).drop (byteLength n)) = _
    rw [List.take_left' hwidth, List.drop_left' hwidth, Word.leValue_leBytes,
      Nat.mod_eq_of_lt (lt_byteLength n)]

/-- Read a value that nothing follows. -/
def exact (c : Codec α) (input : List UInt8) : Option α :=
  match c.decode input with
  | some (a, []) => some a
  | _ => none

theorem exact_encode (c : Codec α) (a : α) : c.exact (c.encode a) = some a := by
  have hread := c.decode_encode a []
  rw [append_nil] at hread
  unfold exact
  rw [hread]

section Maps

variable {κ ν : Type}

/-- A pair as a map entry. -/
def toEntry (p : κ × ν) : Σ _ : κ, ν := ⟨p.1, p.2⟩

/-- The map with the given entries, if their keys are distinct. -/
def mapOfPairs [DecidableEq κ] (pairs : List (κ × ν)) : Option (AssocMap κ ν) :=
  if h : (pairs.map toEntry).keys.Nodup then some ⟨pairs.map toEntry, h⟩ else none

theorem mapOfPairs_entries [DecidableEq κ] (m : AssocMap κ ν) :
    mapOfPairs (m.entries.map fun s => (s.1, s.2)) = some m := by
  have hentries : (m.entries.map fun s => (s.1, s.2)).map toEntry = m.entries := by
    rw [map_map]
    exact map_id _
  have hnodup : ((m.entries.map fun s => (s.1, s.2)).map toEntry).keys.Nodup := by
    rw [hentries]
    exact m.nodupKeys
  rw [mapOfPairs, dif_pos hnodup]
  exact congrArg some (AList.ext hentries)

/-- A finite map, as the list of its entries. -/
def assocMap [DecidableEq κ] (c : Codec κ) (d : Codec ν) : Codec (AssocMap κ ν) :=
  (c.pair d).list.via (fun m => m.entries.map fun s => (s.1, s.2)) mapOfPairs mapOfPairs_entries

end Maps

end Codec
