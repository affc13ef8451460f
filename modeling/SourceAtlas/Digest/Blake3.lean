/-!
The BLAKE3 hash. A message is cut into chunks of 1024 bytes and these into blocks of 64; chunks are
chained block by block and joined two and two into a binary tree, whose root gives the hash.
-/

namespace SourceAtlas.Blake3

/-- The words that every chain starts from. -/
def start : Array UInt32 :=
  #[0x6A09E667, 0xBB67AE85, 0x3C6EF372, 0xA54FF53A, 0x510E527F, 0x9B05688C, 0x1F83D9AB, 0x5BE0CD19]

/-- The order in which a round takes the words of the one before. -/
def schedule : List Nat := [2, 6, 3, 10, 7, 0, 4, 13, 1, 11, 12, 5, 9, 14, 15, 8]

/-- Marks the first block of a chunk. -/
def chunkStart : UInt32 := 1

/-- Marks the last block of a chunk. -/
def chunkEnd : UInt32 := 2

/-- Marks two chaining values joined. -/
def parentMark : UInt32 := 4

/-- Marks the root of the tree. -/
def rootMark : UInt32 := 8

/-- Rotation to the right. -/
def rotate (x : UInt32) (n : UInt32) : UInt32 := (x >>> n) ||| (x <<< (32 - n))

/-- One mixing step on four words of the state. -/
def mix (s : Array UInt32) (a b c d : Nat) (x y : UInt32) : Array UInt32 :=
  let at' (i : Nat) := s.getD i 0
  let va := at' a + at' b + x
  let vd := rotate (at' d ^^^ va) 16
  let vc := at' c + vd
  let vb := rotate (at' b ^^^ vc) 12
  let va := va + vb + y
  let vd := rotate (vd ^^^ va) 8
  let vc := vc + vd
  let vb := rotate (vb ^^^ vc) 7
  (((s.setIfInBounds a va).setIfInBounds b vb).setIfInBounds c vc).setIfInBounds d vd

/-- The words that the eight steps of a round mix: the columns, then the diagonals. -/
def lanes : List (Nat × Nat × Nat × Nat) :=
  [(0, 4, 8, 12), (1, 5, 9, 13), (2, 6, 10, 14), (3, 7, 11, 15),
    (0, 5, 10, 15), (1, 6, 11, 12), (2, 7, 8, 13), (3, 4, 9, 14)]

/-- One round over the state. -/
def round (s m : Array UInt32) : Array UInt32 :=
  lanes.zipIdx.foldl
    (fun s ((a, b, c, d), i) => mix s a b c d (m.getD (2 * i) 0) (m.getD (2 * i + 1) 0)) s

/-- A number of rounds, the message permuted between them. -/
def rounds : (n : Nat) → (s m : Array UInt32) → Array UInt32
  | 0, s, _ => s
  | n + 1, s, m => rounds n (round s m) (schedule.map fun i => m.getD i 0).toArray

/-- A block that is still to be compressed. -/
structure Block where
  chain : Array UInt32
  words : Array UInt32
  counter : Nat
  size : Nat
  marks : UInt32

/-- The eight words that a block gives. -/
def Block.compress (b : Block) : Array UInt32 :=
  let s := rounds 7
    (b.chain ++ start.extract 0 4 ++
      #[b.counter.toUInt32, (b.counter >>> 32).toUInt32, b.size.toUInt32, b.marks]) b.words
  (Array.range 8).map fun i => s.getD i 0 ^^^ s.getD (i + 8) 0

/-- The bytes in pieces of `n`, the last one perhaps shorter; without bytes one empty piece. -/
def pieces (n : Nat) : (fuel : Nat) → List UInt8 → List (List UInt8)
  | 0, bytes => [bytes]
  | fuel + 1, bytes =>
    if bytes.length ≤ n then [bytes] else bytes.take n :: pieces n fuel (bytes.drop n)

/-- The words of a piece, four bytes each, the lowest first. -/
def wordsOf (bytes : List UInt8) : Array UInt32 :=
  let byte (i : Nat) : UInt32 := (bytes.toArray.getD i 0).toUInt32
  (Array.range 16).map fun i =>
    byte (4 * i) ||| (byte (4 * i + 1) <<< 8) ||| (byte (4 * i + 2) <<< 16) |||
      (byte (4 * i + 3) <<< 24)

/-- The last block of a chunk, the blocks before it compressed into its chain. -/
def chunkFrom (counter : Nat) (marks : UInt32) (chain : Array UInt32) : List (List UInt8) → Block
  | [] => ⟨chain, wordsOf [], counter, 0, marks ||| chunkEnd⟩
  | [last] => ⟨chain, wordsOf last, counter, last.length, marks ||| chunkEnd⟩
  | first :: rest =>
    chunkFrom counter 0 (Block.compress ⟨chain, wordsOf first, counter, first.length, marks⟩) rest

/-- The last block of a chunk. -/
def chunkBlock (counter : Nat) (bytes : List UInt8) : Block :=
  chunkFrom counter chunkStart start (pieces 64 bytes.length bytes)

/-- The largest power of two below a number that is at least 2. -/
def leftSize (n : Nat) : Nat := Nat.pow 2 (n - 1).log2

/-- The topmost block of a tree of chunks. `fuel` bounds its height. -/
def treeBlock : (fuel counter : Nat) → List (List UInt8) → Block
  | fuel + 1, counter, c :: d :: rest =>
    let chunks := c :: d :: rest
    let k := leftSize chunks.length
    let left := (treeBlock fuel counter (chunks.take k)).compress
    let right := (treeBlock fuel (counter + k) (chunks.drop k)).compress
    ⟨start, left ++ right, 0, 64, parentMark⟩
  | _, counter, chunks => chunkBlock counter chunks.flatten

/-- The first 32 bytes of the hash as eight words. -/
def hashWords (bytes : List UInt8) : Array UInt32 :=
  let chunks := pieces 1024 bytes.length bytes
  let top := treeBlock chunks.length 0 chunks
  Block.compress { top with counter := 0, marks := top.marks ||| rootMark }

/-- Two hexadecimal digits of a byte. -/
def hexByte (n : Nat) : List Char := [Nat.digitChar (n / 16), Nat.digitChar (n % 16)]

/-- The hash in hexadecimal digits. -/
def hash (bytes : List UInt8) : List Char :=
  (hashWords bytes).toList.flatMap fun w =>
    [0, 8, 16, 24].flatMap fun shift => hexByte ((w >>> shift).toNat % 256)

end SourceAtlas.Blake3
