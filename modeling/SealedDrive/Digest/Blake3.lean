import SealedDrive.Text.Bytes
import SealedDrive.Words

/-!
The BLAKE3 hash function with its three modes: plain, keyed and key derivation. The input is cut
into chunks of 1024 octets, each chunk is compressed block by block, and the chunk values are the
leaves of a binary tree whose left half is always the largest power of two that leaves a right
half. Every digest here has 32 octets.
-/

namespace SealedDrive.Blake3

/-- A chaining value. -/
abbrev Chain := Vector UInt32 8

/-- Sixteen words: a message block or the state of the compression function. -/
abbrev Block := Words

/-- A digest or a key. -/
abbrev Digest := Vector UInt8 32

def iv : Chain :=
  #v[0x6A09E667, 0xBB67AE85, 0x3C6EF372, 0xA54FF53A, 0x510E527F, 0x9B05688C, 0x1F83D9AB, 0x5BE0CD19]

/-! ## Compression -/

def chunkStart : UInt32 := 1
def chunkEnd : UInt32 := 2
def parentFlag : UInt32 := 4
def rootFlag : UInt32 := 8
def keyedFlag : UInt32 := 16
def contextFlag : UInt32 := 32
def materialFlag : UInt32 := 64

def rotateRight (word : UInt32) (count : UInt32) : UInt32 :=
  (word >>> count) ||| (word <<< (32 - count))

def rounds : Nat → Block → Block → Block
  | 0, v, _ => v
  | n + 1, v, m => rounds n (v.round rotateRight m) m.permute

/-- What is still to be compressed at a leaf or at an inner node of the tree. -/
structure Node where
  chain : Chain
  block : Block
  counter : Nat
  length : Nat
  flags : UInt32

/-- The first half of the state after seven rounds, folded with the second half. -/
def Node.compress (node : Node) (flags : UInt32) : Chain :=
  let h := node.chain
  let start : Block :=
    #v[h[0], h[1], h[2], h[3], h[4], h[5], h[6], h[7], iv[0], iv[1], iv[2], iv[3],
      UInt32.ofNat node.counter, UInt32.ofNat (node.counter >>> 32), UInt32.ofNat node.length,
      flags]
  (rounds 7 start node.block).fold

/-- The chaining value an inner node hands to its parent. -/
def Node.value (node : Node) : Chain := node.compress node.flags

/-- Octet `i` of a row of words, the least significant octet of a word first. -/
def octet (words : Chain) (i : Fin 32) : UInt8 :=
  (words.get ⟨i.val / 4, by omega⟩ >>> UInt32.ofNat (8 * (i.val % 4))).toUInt8

/-- The digest of the whole input, taken at the root. -/
def Node.digest (node : Node) : Digest :=
  Vector.ofFn (octet (node.compress (node.flags ||| rootFlag)))

/-! ## Chunks and the tree over them -/

/-- Four octets as one word, the least significant first; missing octets are zero. -/
def wordsOf : Bytes → List UInt32
  | [] => []
  | [a] => [a.toUInt32]
  | [a, b] => [a.toUInt32 ||| b.toUInt32 <<< 8]
  | [a, b, c] => [a.toUInt32 ||| b.toUInt32 <<< 8 ||| c.toUInt32 <<< 16]
  | a :: b :: c :: d :: rest =>
    (a.toUInt32 ||| b.toUInt32 <<< 8 ||| c.toUInt32 <<< 16 ||| d.toUInt32 <<< 24) :: wordsOf rest

def blockOf (bytes : Bytes) : Block :=
  let words := (wordsOf bytes).toArray
  Vector.ofFn fun i => words.getD i.val 0

/-- Cut into pieces of `size` octets; the last piece may be short, and there is always one. -/
def pieces (size : Nat) (bytes : Bytes) : List Bytes := go bytes.length bytes
where
  go : Nat → Bytes → List Bytes
    | 0, bytes => [bytes]
    | fuel + 1, bytes =>
      if bytes.length ≤ size then [bytes] else bytes.take size :: go fuel (bytes.drop size)

/-- How a hash is keyed: the chaining value every chunk starts from, and the flags of its mode. -/
structure Mode where
  key : Chain
  flags : UInt32

/-- Compress all blocks of a chunk but the last, which is left for its node. -/
def Mode.chunk (mode : Mode) (counter : Nat) (chain : Chain) (flags : UInt32) : List Bytes → Node
  | [] => ⟨chain, blockOf [], counter, 0, flags ||| chunkEnd⟩
  | [last] => ⟨chain, blockOf last, counter, last.length, flags ||| chunkEnd⟩
  | block :: rest =>
    let node : Node := ⟨chain, blockOf block, counter, 64, flags⟩
    mode.chunk counter node.value mode.flags rest

def Mode.leaf (mode : Mode) (counter : Nat) (bytes : Bytes) : Node :=
  mode.chunk counter mode.key (mode.flags ||| chunkStart) (pieces 64 bytes)

def Mode.parent (mode : Mode) (left right : Chain) : Node :=
  ⟨mode.key, left ++ right, 0, 64, mode.flags ||| parentFlag⟩

/-- The node over the chunks from number `counter` on. -/
def Mode.tree (mode : Mode) : Nat → Nat → List Bytes → Node
  | 0, counter, chunks => mode.leaf counter (chunks.headD [])
  | _, counter, [] => mode.leaf counter []
  | _, counter, [chunk] => mode.leaf counter chunk
  | fuel + 1, counter, chunks =>
    let half := 2 ^ Nat.log2 (chunks.length - 1)
    mode.parent (mode.tree fuel counter (chunks.take half)).value
      (mode.tree fuel (counter + half) (chunks.drop half)).value

def Mode.run (mode : Mode) (input : Bytes) : Digest :=
  let chunks := pieces 1024 input
  (mode.tree chunks.length 0 chunks).digest

def chainOf (key : Digest) : Chain :=
  let words := (wordsOf key.toList).toArray
  Vector.ofFn fun i => words.getD i.val 0

/-! ## The three modes -/

def hash (input : Bytes) : Digest := Mode.run ⟨iv, 0⟩ input

def keyedHash (key : Digest) (input : Bytes) : Digest := Mode.run ⟨chainOf key, keyedFlag⟩ input

/-- A key for one purpose, which the context names. -/
def deriveKey (context : String) (material : Bytes) : Digest :=
  Mode.run ⟨chainOf (Mode.run ⟨iv, contextFlag⟩ (Bytes.ofText context)), materialFlag⟩ material

end SealedDrive.Blake3
