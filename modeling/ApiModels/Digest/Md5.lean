/-
ApiModels.Digest.Md5 — the MD5 digest of bytes.

The bytes are padded to whole blocks of 64, a mark and the length in bits
at the end, and read as words of 32 bits, the lowest byte first. Four words
are mixed with every block in 64 steps; what they are in the end is the
digest.
-/
import ApiModels.Text.Quoted

namespace ApiModels.Md5

/-- The four words that are mixed. -/
structure State where
  a : UInt32
  b : UInt32
  c : UInt32
  d : UInt32
  deriving DecidableEq, Repr

/-- The words before the first block. -/
def initial : State := ⟨0x67452301, 0xefcdab89, 0x98badcfe, 0x10325476⟩

/-- The words added in the 64 steps: the fractions of sines, in units of 2⁻³². -/
def sines : List UInt32 := [
   0xd76aa478, 0xe8c7b756, 0x242070db, 0xc1bdceee,
   0xf57c0faf, 0x4787c62a, 0xa8304613, 0xfd469501,
   0x698098d8, 0x8b44f7af, 0xffff5bb1, 0x895cd7be,
   0x6b901122, 0xfd987193, 0xa679438e, 0x49b40821,
   0xf61e2562, 0xc040b340, 0x265e5a51, 0xe9b6c7aa,
   0xd62f105d, 0x02441453, 0xd8a1e681, 0xe7d3fbc8,
   0x21e1cde6, 0xc33707d6, 0xf4d50d87, 0x455a14ed,
   0xa9e3e905, 0xfcefa3f8, 0x676f02d9, 0x8d2a4c8a,
   0xfffa3942, 0x8771f681, 0x6d9d6122, 0xfde5380c,
   0xa4beea44, 0x4bdecfa9, 0xf6bb4b60, 0xbebfbc70,
   0x289b7ec6, 0xeaa127fa, 0xd4ef3085, 0x04881d05,
   0xd9d4d039, 0xe6db99e5, 0x1fa27cf8, 0xc4ac5665,
   0xf4292244, 0x432aff97, 0xab9423a7, 0xfc93a039,
   0x655b59c3, 0x8f0ccc92, 0xffeff47d, 0x85845dd1,
   0x6fa87e4f, 0xfe2ce6e0, 0xa3014314, 0x4e0811a1,
   0xf7537e82, 0xbd3af235, 0x2ad7d2bb, 0xeb86d391]

/-- How far the word is turned in the four steps of a kind, for each of the four rounds. -/
def turns : List (List UInt32) :=
  [[7, 12, 17, 22], [5, 9, 14, 20], [4, 11, 16, 23], [6, 10, 15, 21]]

/-- A word turned to the left. -/
def turn (x n : UInt32) : UInt32 := (x <<< n) ||| (x >>> (32 - n))

/-- How three words are mixed in a round, and which word of the block a step takes. -/
def mix (s : State) (i : Nat) : UInt32 × Nat :=
  match i / 16 with
  | 0 => ((s.b &&& s.c) ||| (~~~s.b &&& s.d), i)
  | 1 => ((s.d &&& s.b) ||| (~~~s.d &&& s.c), (5 * i + 1) % 16)
  | 2 => (s.b ^^^ s.c ^^^ s.d, (3 * i + 5) % 16)
  | _ => (s.c ^^^ (s.b ||| ~~~s.d), (7 * i) % 16)

/-- Step `i` with a block of sixteen words; `sine` is the word added in it. -/
def step (block : List UInt32) (s : State) (i : Nat) (sine : UInt32) : State :=
  let (mixed, k) := mix s i
  let sum := s.a + mixed + sine + block.getD k 0
  ⟨s.d, s.b + turn sum ((turns.getD (i / 16) []).getD (i % 4) 0), s.b, s.c⟩

/-- The steps from `i` on. -/
def steps (block : List UInt32) : State → Nat → List UInt32 → State
  | s, _, [] => s
  | s, i, sine :: rest => steps block (step block s i sine) (i + 1) rest

/-- The words after a block: those before it, with those that the steps make added. -/
def afterBlock (s : State) (block : List UInt32) : State :=
  let t := steps block s 0 sines
  ⟨s.a + t.a, s.b + t.b, s.c + t.c, s.d + t.d⟩

/-- A number as so many bytes, the lowest first. -/
def littleEndian : Nat → Nat → List UInt8
  | 0, _ => []
  | width + 1, n => UInt8.ofNat n :: littleEndian width (n / 256)

/-- The bytes with a mark, zeros up to a whole block, and their number in bits. -/
def padded (bytes : List UInt8) : List UInt8 :=
  let zeros := (119 - bytes.length % 64) % 64
  bytes ++ 0x80 :: (List.replicate zeros 0 ++ littleEndian 8 (8 * bytes.length))

/-- Bytes as words of four. -/
def words : List UInt8 → List UInt32
  | w :: x :: y :: z :: rest =>
    (w.toUInt32 ||| x.toUInt32 <<< 8 ||| y.toUInt32 <<< 16 ||| z.toUInt32 <<< 24) :: words rest
  | _ => []

/-- Words as so many blocks of sixteen. -/
def blocks : Nat → List UInt32 → List (List UInt32)
  | 0, _ => []
  | n + 1, ws => ws.take 16 :: blocks n (ws.drop 16)

/-- The words in the end. -/
def state (bytes : List UInt8) : State :=
  let ws := words (padded bytes)
  (blocks (ws.length / 16) ws).foldl afterBlock initial

/-- The digest: sixteen bytes. -/
def digest (bytes : List UInt8) : List UInt8 :=
  let s := state bytes
  [s.a, s.b, s.c, s.d].flatMap fun w => littleEndian 4 w.toNat

/-- The digest of a text in UTF-8, in hexadecimal digits. -/
def hexDigest (s : String) : String :=
  String.ofList ((digest s.toUTF8.toList).flatMap fun b => Text.hexDigits 2 b.toNat)

end ApiModels.Md5
