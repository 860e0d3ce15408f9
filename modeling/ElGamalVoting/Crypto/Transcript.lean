import ElGamalVoting.Crypto.Points

/- Merlin-style Fiat-Shamir transcript and hash-to-scalar (`crypto/transcript.py`).

   A transcript is an append-only list of byte slices: the label, then for every
   append the tag and the value, each behind its 4-byte length. The length
   prefix is `u32be`, so an append of a tag or a value of 2^32 bytes or more
   raises. `challenge` hashes the whole log behind a head that names the
   challenge, and folds the derived scalar back into the log. -/
namespace ElGamalVoting
open Lib

structure Transcript where
  parts : List Bytes
  deriving DecidableEq

/-- A tag with an index, as the f-strings `or:m[3]` and `ct.c1[0]` write it. -/
def indexedTag (name : String) (i : Nat) : String := name ++ "[" ++ toString i ++ "]"

namespace Transcript

def new (label : String) : Transcript := ⟨[utf8 label]⟩

def append (t : Transcript) (tag : String) (value : Bytes) : Py Transcript := do
  let tb := utf8 tag
  let tagLen ← u32be tb.length
  let valueLen ← u32be value.length
  pure ⟨t.parts ++ [tagLen, tb, valueLen, value]⟩

/-- The raw concatenated transcript bytes. -/
def preimage (t : Transcript) : Bytes := t.parts.flatten

def appendScalar (t : Transcript) (tag : String) (s : Int) : Py Transcript :=
  t.append tag (scalarToBytes s)

end Transcript

section
variable {G₁ G₂ : Type} [AddCommGroup G₁] [AddCommGroup G₂]

/-- Append a G2 point by its compressed encoding. -/
def Transcript.appendPoint (S : Suite G₁ G₂) (t : Transcript) (tag : String) (point : G₂) :
    Py Transcript :=
  t.append tag (S.g2.toCompressed point)

/-- The dual-keccak challenge scalar of a preimage. -/
def hashPreimage (S : Suite G₁ G₂) (preimage : Bytes) : Int :=
  wideReduce (S.keccak (0x00 :: preimage) ++ S.keccak (0x01 :: preimage))

/-- The challenge scalar and the transcript with it folded back in. -/
def Transcript.challenge (S : Suite G₁ G₂) (t : Transcript) (tag : String) :
    Py (Int × Transcript) := do
  let tb := utf8 tag
  let tagLen ← u32be tb.length
  let head := dstFiatShamir ++ tagLen ++ tb
  let e := hashPreimage S (head ++ t.preimage)
  let t ← t.appendScalar (tag ++ ":chal") e
  pure (e, t)

/-- Concatenation-form hash to a scalar, used by the Schnorr challenge. -/
def hashToScalar (S : Suite G₁ G₂) (domainSep : Bytes) (parts : List Bytes) : Int :=
  hashPreimage S (domainSep ++ parts.flatten)

end

/-! ## What an append does -/

theorem u32be_ok {n : Nat} (h : n < 2 ^ 32) : u32be n = .ok (beBytes 4 n) := by
  have := toBytes_ok (n := n) (w := 4) (by omega) (by omega)
  simpa [u32be] using this

theorem append_ok (t : Transcript) {tag : String} {value : Bytes}
    (htag : (utf8 tag).length < 2 ^ 32) (hvalue : value.length < 2 ^ 32) :
    t.append tag value =
      .ok ⟨t.parts ++ [beBytes 4 (utf8 tag).length, utf8 tag, beBytes 4 value.length, value]⟩ := by
  simp [Transcript.append, u32be_ok htag, u32be_ok hvalue]

theorem append_eq_ok {t t' : Transcript} {tag : String} {value : Bytes}
    (h : t.append tag value = .ok t') :
    t' = ⟨t.parts ++ [beBytes 4 (utf8 tag).length, utf8 tag, beBytes 4 value.length, value]⟩ := by
  obtain ⟨tl, htl, h⟩ := bind_eq_ok.mp h
  obtain ⟨vl, hvl, h⟩ := bind_eq_ok.mp h
  obtain ⟨-, -, rfl⟩ := toBytes_eq_ok htl
  obtain ⟨-, -, rfl⟩ := toBytes_eq_ok hvl
  simp only [pure_eq_ok, Except.ok.injEq] at h
  simpa using h.symm

/-- An append under a tag and of a value that fit their length prefixes returns. -/
theorem append_returns (t : Transcript) {tag : String} {value : Bytes}
    (htag : (utf8 tag).length < 2 ^ 32) (hvalue : value.length < 2 ^ 32) :
    Returns (t.append tag value) := ⟨_, append_ok t htag hvalue⟩

theorem appendScalar_returns (t : Transcript) {tag : String} (s : Int)
    (htag : (utf8 tag).length < 2 ^ 32) : Returns (t.appendScalar tag s) :=
  append_returns t htag (by simp)

theorem length_utf8_toString (i : Nat) (hi : i < 10 ^ 10) : (utf8 (toString i)).length ≤ 40 := by
  have hlen : (Nat.toDigits 10 i).length ≤ 10 := (Nat.length_toDigits_le_iff (by decide) (by decide)).mpr hi
  have hbound (cs : List Char) : (cs.flatMap String.utf8EncodeChar).length ≤ 4 * cs.length := by
    induction cs with
    | nil => simp
    | cons c cs ih =>
      have := Char.utf8Size_le_four c
      simp only [List.flatMap_cons, List.length_append, String.length_utf8EncodeChar, List.length_cons]
      omega
  have h := hbound (Nat.toDigits 10 i)
  have : utf8 (toString i) = (Nat.toDigits 10 i).flatMap String.utf8EncodeChar := by
    simp [utf8_eq_flatMap]
  rw [this]
  omega

/-- An indexed tag with a short name fits its length prefix. -/
theorem length_indexedTag {name : String} {i : Nat} (hn : (utf8 name).length ≤ 16) (hi : i < 2 ^ 32) :
    (utf8 (indexedTag name i)).length < 2 ^ 32 := by
  have h1 := length_utf8_toString i (by omega)
  have h2 : (utf8 "[").length = 1 := by decide
  have h3 : (utf8 "]").length = 1 := by decide
  simp only [indexedTag, utf8_append, List.length_append]
  omega

section
variable {G₁ G₂ : Type} [AddCommGroup G₁] [AddCommGroup G₂] (S : Suite G₁ G₂)

theorem appendPoint_returns (t : Transcript) {tag : String} (P : G₂)
    (htag : (utf8 tag).length < 2 ^ 32) : Returns (t.appendPoint S tag P) :=
  append_returns t htag (by rw [S.g2.length_toCompressed]; decide)

theorem challenge_returns (t : Transcript) {tag : String} (htag : (utf8 tag).length ≤ 16) :
    Returns (t.challenge S tag) := by
  have hchal : (utf8 (tag ++ ":chal")).length < 2 ^ 32 := by
    have : (utf8 ":chal").length = 5 := by decide
    rw [utf8_append, List.length_append]
    omega
  refine Returns.bind ⟨_, u32be_ok (by omega)⟩ fun _ _ => ?_
  exact Returns.bind (appendScalar_returns t _ hchal) fun _ _ => Returns.ok _

end
end ElGamalVoting
