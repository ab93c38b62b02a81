/-!
# BLAKE3

The 256-bit BLAKE3 hash of a list of bytes. Input is cut into chunks of 1024 bytes and chunks into
blocks of 64; the chunks are the leaves of a binary tree whose left subtrees are as large as a
power of two allows. Every node of the tree is one use of the compression function, and the node
at the root marks itself with a flag of its own.

| flag | set for |
| --- | --- |
| `chunkStart` | the first block of a chunk |
| `chunkEnd` | the last block of a chunk |
| `parent` | a node above the chunks |
| `root` | the last compression of all |
-/

namespace RecordSchema
namespace Blake3

/-- Eight words that stand for the input below a node. -/
abbrev Chain := Vector UInt32 8

/-- Sixteen words: a block of input, or the state of a compression. -/
abbrev Words := Vector UInt32 16

/-- The initial chain. -/
def initial : Chain :=
  #v[0x6A09E667, 0xBB67AE85, 0x3C6EF372, 0xA54FF53A, 0x510E527F, 0x9B05688C, 0x1F83D9AB, 0x5BE0CD19]

def chunkStart : UInt32 := 1
def chunkEnd : UInt32 := 2
def parent : UInt32 := 4
def root : UInt32 := 8

/-- Where each word of a block comes from in the round after. -/
def schedule : Vector (Fin 16) 16 := #v[2, 6, 3, 10, 7, 0, 4, 13, 1, 11, 12, 5, 9, 14, 15, 8]

/-- A word turned right by `n` bits. -/
def rotateRight (w n : UInt32) : UInt32 := (w >>> n) ||| (w <<< (32 - n))

/-- Mixes two words of input into four words of state. -/
def mix (s : Words) (a b c d : Fin 16) (x y : UInt32) : Words :=
  let s := s.set a (s[a] + s[b] + x)
  let s := s.set d (rotateRight (s[d] ^^^ s[a]) 16)
  let s := s.set c (s[c] + s[d])
  let s := s.set b (rotateRight (s[b] ^^^ s[c]) 12)
  let s := s.set a (s[a] + s[b] + y)
  let s := s.set d (rotateRight (s[d] ^^^ s[a]) 8)
  let s := s.set c (s[c] + s[d])
  s.set b (rotateRight (s[b] ^^^ s[c]) 7)

/-- One round: the columns of the state, then its diagonals. -/
def round (s m : Words) : Words :=
  let s := mix s 0 4 8 12 m[0] m[1]
  let s := mix s 1 5 9 13 m[2] m[3]
  let s := mix s 2 6 10 14 m[4] m[5]
  let s := mix s 3 7 11 15 m[6] m[7]
  let s := mix s 0 5 10 15 m[8] m[9]
  let s := mix s 1 6 11 12 m[10] m[11]
  let s := mix s 2 7 8 13 m[12] m[13]
  mix s 3 4 9 14 m[14] m[15]

/-- `n` rounds, the block permuted between them. -/
def rounds : Nat → Words → Words → Words
  | 0, s, _ => s
  | n + 1, s, m => rounds n (round s m) (schedule.map fun i => m[i])

/-- What a node of the tree compresses. -/
structure Node where
  chain : Chain
  block : Words
  counter : UInt64
  /-- The number of bytes in the block. -/
  size : UInt32
  flags : UInt32

namespace Node

/-- The eight words that stand for a node. -/
def compress (n : Node) : Chain :=
  let h := n.chain
  let s := rounds 7
    #v[h[0], h[1], h[2], h[3], h[4], h[5], h[6], h[7],
      initial[0], initial[1], initial[2], initial[3],
      n.counter.toUInt32, (n.counter >>> 32).toUInt32, n.size, n.flags] n.block
  Vector.ofFn fun i => s[i.val] ^^^ s[i.val + 8]

/-- The node above two others. -/
def above (left right : Node) : Node where
  chain := initial
  block := left.compress ++ right.compress
  counter := 0
  size := 64
  flags := parent

/-- The words of the node as the root of the tree. -/
def digest (n : Node) : Chain := compress { n with flags := n.flags ||| root }

end Node

/-- The word of four bytes, the lowest first. -/
def word (bytes : Array UInt8) (i : Nat) : UInt32 :=
  (bytes.getD i 0).toUInt32 ||| (bytes.getD (i + 1) 0).toUInt32 <<< 8 |||
    (bytes.getD (i + 2) 0).toUInt32 <<< 16 ||| (bytes.getD (i + 3) 0).toUInt32 <<< 24

/-- The block that starts at byte `i`, with zeros after the end of the input. -/
def blockAt (bytes : Array UInt8) (i : Nat) : Words := Vector.ofFn fun k => word bytes (i + 4 * k.val)

/-- The node of a chunk from its block at byte `i` on, with `left` bytes to go; `blocks` bounds the
blocks before the last one. -/
def chunkFrom (bytes : Array UInt8) (counter : UInt64) :
    (blocks i left : Nat) → (chain : Chain) → (flags : UInt32) → Node
  | blocks + 1, i, left, chain, flags =>
    if 64 < left then
      let node := Node.mk chain (blockAt bytes i) counter 64 flags
      chunkFrom bytes counter blocks (i + 64) (left - 64) node.compress 0
    else ⟨chain, blockAt bytes i, counter, left.toUInt32, flags ||| chunkEnd⟩
  | 0, i, left, chain, flags => ⟨chain, blockAt bytes i, counter, left.toUInt32, flags ||| chunkEnd⟩

/-- The node of the chunk with a number. -/
def chunk (bytes : Array UInt8) (number : Nat) : Node :=
  let start := 1024 * number
  chunkFrom bytes number.toUInt64 15 start (min 1024 (bytes.size - start)) initial chunkStart

/-- The largest power of two below `n`, for `n` from 2 on; `k` bounds its exponent. -/
def leftSize (n : Nat) : (k : Nat) → Nat
  | 0 => 1
  | k + 1 => if 2 ^ (k + 1) < n then 2 ^ (k + 1) else leftSize n k

/-- The node over `count` chunks from number `first` on; `height` bounds the height of the tree. -/
def subtree (bytes : Array UInt8) : (height first count : Nat) → Node
  | 0, first, _ => chunk bytes first
  | height + 1, first, count =>
    if count ≤ 1 then chunk bytes first
    else
      let l := leftSize count height
      .above (subtree bytes height first l) (subtree bytes height (first + l) (count - l))

/-- The four bytes of a word, the lowest first. -/
def wordBytes (w : UInt32) : List UInt8 :=
  [w.toUInt8, (w >>> 8).toUInt8, (w >>> 16).toUInt8, (w >>> 24).toUInt8]

/-- The 32 bytes of the hash. The chunks number less than two to the power of 64. -/
def hash (bytes : Array UInt8) : List UInt8 :=
  (subtree bytes 64 0 ((bytes.size + 1023) / 1024)).digest.toList.flatMap wordBytes

end Blake3
end RecordSchema
