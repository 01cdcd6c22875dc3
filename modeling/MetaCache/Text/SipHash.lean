/-!
# Hashes of names

Slot and init-arg names are looked up by a 32-bit hash that is computed once. It is SipHash-1-3
with both key words zero, run over the name's UTF-8 bytes and one closing byte `0xFF` (so that no
name's bytes continue another's), and folded to 32 bits.

* `sipHash13`: the hash of a byte sequence, as a 64-bit word.
* `nameHash`: the hash of a name.
-/

namespace MetaCache.Text

/-- The four words of a running SipHash. -/
structure SipState where
  v0 : UInt64
  v1 : UInt64
  v2 : UInt64
  v3 : UInt64

/-- `x` rotated left by `k` bits, for `0 < k < 64`. -/
def rotateLeft (x k : UInt64) : UInt64 :=
  (x <<< k) ||| (x >>> (64 - k))

namespace SipState

/-- The state before the first word, for a key of two zero words. -/
def initial : SipState where
  v0 := 0x736f6d6570736575
  v1 := 0x646f72616e646f6d
  v2 := 0x6c7967656e657261
  v3 := 0x7465646279746573

/-- One SipRound. -/
def round (s : SipState) : SipState :=
  let v0 := s.v0 + s.v1
  let v2 := s.v2 + s.v3
  let v1 := rotateLeft s.v1 13 ^^^ v0
  let v3 := rotateLeft s.v3 16 ^^^ v2
  let v0 := rotateLeft v0 32
  let v2 := v2 + v1
  let v0 := v0 + v3
  let v1 := rotateLeft v1 17 ^^^ v2
  let v3 := rotateLeft v3 21 ^^^ v0
  { v0, v1, v2 := rotateLeft v2 32, v3 }

/-- Absorbs one message word, with one round. -/
def absorb (s : SipState) (word : UInt64) : SipState :=
  let t := { s with v3 := s.v3 ^^^ word }.round
  { t with v0 := t.v0 ^^^ word }

/-- The hash of what was absorbed, after three closing rounds. -/
def finish (s : SipState) : UInt64 :=
  let t := { s with v2 := s.v2 ^^^ 0xFF }.round.round.round
  t.v0 ^^^ t.v1 ^^^ t.v2 ^^^ t.v3

end SipState

/-- The word whose bytes are `bytes`, least significant first. -/
def wordOfBytes (bytes : List UInt8) : UInt64 :=
  bytes.foldr (fun b acc => (acc <<< 8) ||| b.toUInt64) 0

/-- Absorbs `bytes`, eight at a time; the last word holds the bytes that are left over and, in its
top byte, `length` modulo 256. -/
def absorbBytes (length : Nat) (s : SipState) : List UInt8 → SipState
  | b0 :: b1 :: b2 :: b3 :: b4 :: b5 :: b6 :: b7 :: rest =>
    absorbBytes length (s.absorb (wordOfBytes [b0, b1, b2, b3, b4, b5, b6, b7])) rest
  | rest => s.absorb (wordOfBytes rest ||| (UInt64.ofNat length <<< 56))

/-- SipHash-1-3 of `bytes` under a key of two zero words. -/
def sipHash13 (bytes : List UInt8) : UInt64 :=
  (absorbBytes bytes.length .initial bytes).finish

/-- The 32-bit hash of a name. -/
def nameHash (name : String) : UInt32 :=
  let h := sipHash13 (name.toUTF8.data.toList ++ [0xFF])
  (h ^^^ (h >>> 32)).toUInt32

end MetaCache.Text
