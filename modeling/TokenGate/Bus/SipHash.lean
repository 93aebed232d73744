/-!
# `TokenGate.Bus.SipHash`: the keyed hash that places records on partitions

SipHash-1-3 with both keys zero: one compression round per 8-byte word, three
finalization rounds. A text key is hashed as its UTF-8 bytes followed by one `0xFF`
byte, so that no text is a prefix of another as a hashed message.
-/

set_option autoImplicit false

namespace TokenGate.SipHash

/-- Rotate a word left by `n` bits. -/
def rotl (x : UInt64) (n : UInt64) : UInt64 := (x <<< n) ||| (x >>> (64 - n))

/-- The four words of the hash state. -/
structure State where
  v0 : UInt64
  v1 : UInt64
  v2 : UInt64
  v3 : UInt64

/-- One SipRound. -/
def round (s : State) : State :=
  let v0 := s.v0 + s.v1
  let v1 := rotl s.v1 13 ^^^ v0
  let v0 := rotl v0 32
  let v2 := s.v2 + s.v3
  let v3 := rotl s.v3 16 ^^^ v2
  let v0 := v0 + v3
  let v3 := rotl v3 21 ^^^ v0
  let v2 := v2 + v1
  let v1 := rotl v1 17 ^^^ v2
  let v2 := rotl v2 32
  ⟨v0, v1, v2, v3⟩

/-- Absorb one message word. -/
def absorb (s : State) (m : UInt64) : State :=
  let s := round { s with v3 := s.v3 ^^^ m }
  { s with v0 := s.v0 ^^^ m }

/-- Up to eight bytes as a little-endian word. -/
def word (bs : List UInt8) : UInt64 :=
  bs.foldr (fun b acc => (acc <<< 8) ||| b.toUInt64) 0

/-- Absorb every full word of a message, then the last partial one with the length. -/
def absorbAll (s : State) (len : Nat) : List UInt8 → Nat → State
  | bs, fuel + 1 =>
    if bs.length ≥ 8 then absorbAll (absorb s (word (bs.take 8))) len (bs.drop 8) fuel
    else absorb s (word bs ||| ((len % 256).toUInt64 <<< 56))
  | bs, 0 => absorb s (word bs ||| ((len % 256).toUInt64 <<< 56))

/-- SipHash-1-3 of a message with both keys zero. -/
def hash (msg : List UInt8) : UInt64 :=
  let s : State := ⟨0x736f6d6570736575, 0x646f72616e646f6d, 0x6c7967656e657261, 0x7465646279746573⟩
  let s := absorbAll s msg.length msg (msg.length / 8 + 1)
  let s := { s with v2 := s.v2 ^^^ 0xff }
  let s := round (round (round s))
  s.v0 ^^^ s.v1 ^^^ s.v2 ^^^ s.v3

end TokenGate.SipHash
