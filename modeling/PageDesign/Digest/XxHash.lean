/-
# PageDesign.Digest.XxHash -- the 64 bit hash of a byte string

The hash xxh64 with seed zero.  Every full block of 32 bytes goes through four accumulators;
what is left is taken in by eight, four and one byte at a time, and the bits are mixed at the
end.  All arithmetic is on words of 64 bits and wraps.
-/

namespace PageDesign.XxHash

/-! ## Constants and words -/

/-- The first of the five primes. -/
def prime1 : UInt64 := 11400714785074694791
/-- The second of the five primes. -/
def prime2 : UInt64 := 14029467366897019727
/-- The third of the five primes. -/
def prime3 : UInt64 := 1609587929392839161
/-- The fourth of the five primes. -/
def prime4 : UInt64 := 9650029242287828579
/-- The fifth of the five primes. -/
def prime5 : UInt64 := 2870177450012600261

/-- Rotation to the left. -/
def rotate (x n : UInt64) : UInt64 := (x <<< n) ||| (x >>> (64 - n))

/-- The word whose bytes are given, the lowest first. -/
def wordOf (bytes : List UInt8) : UInt64 :=
  bytes.foldr (fun b w => (w <<< 8) ||| b.toUInt64) 0

/-- The words of eight bytes; bytes that fill no word are left out. -/
def words : List UInt8 → List UInt64
  | a :: b :: c :: d :: e :: f :: g :: h :: rest => wordOf [a, b, c, d, e, f, g, h] :: words rest
  | _ => []

/-! ## Full blocks -/

/-- One word taken into an accumulator. -/
def step (acc input : UInt64) : UInt64 := rotate (acc + input * prime2) 31 * prime1

/-- The four accumulators. -/
structure Lanes where
  a : UInt64
  b : UInt64
  c : UInt64
  d : UInt64

/-- The accumulators before the first block. -/
def Lanes.start : Lanes := ⟨prime1 + prime2, prime2, 0, 0 - prime1⟩

/-- The accumulators after the blocks made of the given words. -/
def Lanes.absorb : Lanes → List UInt64 → Lanes
  | l, a :: b :: c :: d :: rest =>
    Lanes.absorb ⟨step l.a a, step l.b b, step l.c c, step l.d d⟩ rest
  | l, _ => l

/-- An accumulator merged into the hash. -/
def merge (hash lane : UInt64) : UInt64 := (hash ^^^ step 0 lane) * prime1 + prime4

/-- The hash of the four accumulators. -/
def Lanes.hash (l : Lanes) : UInt64 :=
  [l.a, l.b, l.c, l.d].foldl merge
    (rotate l.a 1 + rotate l.b 7 + rotate l.c 12 + rotate l.d 18)

/-! ## The rest -/

/-- The bytes that fill no block. -/
def absorbRest : UInt64 → List UInt8 → UInt64
  | hash, a :: b :: c :: d :: e :: f :: g :: h :: rest =>
    absorbRest (rotate (hash ^^^ step 0 (wordOf [a, b, c, d, e, f, g, h])) 27 * prime1 + prime4)
      rest
  | hash, a :: b :: c :: d :: rest =>
    absorbRest (rotate (hash ^^^ (wordOf [a, b, c, d] * prime1)) 23 * prime2 + prime3) rest
  | hash, a :: rest => absorbRest (rotate (hash ^^^ (a.toUInt64 * prime5)) 11 * prime1) rest
  | hash, [] => hash

/-- The last mixing of the bits. -/
def mix (hash : UInt64) : UInt64 :=
  let hash := (hash ^^^ (hash >>> 33)) * prime2
  let hash := (hash ^^^ (hash >>> 29)) * prime3
  hash ^^^ (hash >>> 32)

/-- The hash of a byte string. -/
def hash (bytes : List UInt8) : UInt64 :=
  let full := bytes.length / 32 * 32
  let start :=
    if full = 0 then prime5 else (Lanes.start.absorb (words (bytes.take full))).hash
  mix (absorbRest (start + UInt64.ofNat bytes.length) (bytes.drop full))

end PageDesign.XxHash
