import ShellPrompt.Text.Numeral
import ShellPrompt.Text.Utf8

/-!
# ShellPrompt.Digest

The BLAKE3 hash of a byte string.

The bytes are cut into chunks of 1024, each chunk into blocks of 64. `compress` mixes a block into
a chaining value of eight words. A chunk chains its blocks; above the chunks stands a binary tree
whose left subtrees are complete. The last compression of a subtree is kept as a `Node`, since the
root of the whole tree is finished differently from every other node.
-/

namespace ShellPrompt
namespace Digest

abbrev Chain := Vector UInt32 8
abbrev Block := Vector UInt32 16

def initial : Chain :=
  #v[0x6A09E667, 0xBB67AE85, 0x3C6EF372, 0xA54FF53A, 0x510E527F, 0x9B05688C, 0x1F83D9AB, 0x5BE0CD19]

/-- Where the words of a block stand in the next round. -/
def schedule : Vector (Fin 16) 16 := #v[2, 6, 3, 10, 7, 0, 4, 13, 1, 11, 12, 5, 9, 14, 15, 8]

def chunkStart : UInt32 := 1
def chunkEnd : UInt32 := 2
def parent : UInt32 := 4
def root : UInt32 := 8

def rotateRight (w : UInt32) (n : UInt32) : UInt32 := (w >>> n) ||| (w <<< (32 - n))

/-- Mixes two words of a block into four words of the state. -/
def mix (v : Block) (a b c d : Fin 16) (x y : UInt32) : Block :=
  let v := v.set a (v[a] + v[b] + x)
  let v := v.set d (rotateRight (v[d] ^^^ v[a]) 16)
  let v := v.set c (v[c] + v[d])
  let v := v.set b (rotateRight (v[b] ^^^ v[c]) 12)
  let v := v.set a (v[a] + v[b] + y)
  let v := v.set d (rotateRight (v[d] ^^^ v[a]) 8)
  let v := v.set c (v[c] + v[d])
  v.set b (rotateRight (v[b] ^^^ v[c]) 7)

/-- Columns, then diagonals. -/
def round (v m : Block) : Block :=
  let v := mix v 0 4 8 12 m[0] m[1]
  let v := mix v 1 5 9 13 m[2] m[3]
  let v := mix v 2 6 10 14 m[4] m[5]
  let v := mix v 3 7 11 15 m[6] m[7]
  let v := mix v 0 5 10 15 m[8] m[9]
  let v := mix v 1 6 11 12 m[10] m[11]
  let v := mix v 2 7 8 13 m[12] m[13]
  mix v 3 4 9 14 m[14] m[15]

def permute (m : Block) : Block := schedule.map fun i => m[i]

def rounds : Nat → Block → Block → Block
  | 0, v, _ => v
  | n + 1, v, m => rounds n (round v m) (permute m)

structure Node where
  chain : Chain
  block : Block
  counter : Nat
  length : Nat
  flags : UInt32

namespace Node

def state (n : Node) : Block :=
  #v[n.chain[0], n.chain[1], n.chain[2], n.chain[3], n.chain[4], n.chain[5], n.chain[6], n.chain[7],
    initial[0], initial[1], initial[2], initial[3], UInt32.ofNat n.counter,
    UInt32.ofNat (n.counter / 0x100000000), UInt32.ofNat n.length, n.flags]

def compress (n : Node) : Chain :=
  let v := rounds 7 n.state n.block
  #v[v[0] ^^^ v[8], v[1] ^^^ v[9], v[2] ^^^ v[10], v[3] ^^^ v[11], v[4] ^^^ v[12], v[5] ^^^ v[13],
    v[6] ^^^ v[14], v[7] ^^^ v[15]]

def join (left right : Node) : Node where
  chain := initial
  block := left.compress ++ right.compress
  counter := 0
  length := 64
  flags := parent

end Node

/-- The word of four bytes, the lowest first; missing bytes are zero. -/
def wordAt (bytes : Text.Bytes) (i : Nat) : UInt32 :=
  ((bytes.drop (4 * i)).take 4).foldr (fun b w => (w <<< 8) ||| b.toUInt32) 0

def blockOf (bytes : Text.Bytes) : Block := Vector.ofFn fun i => wordAt bytes i

/-- Chains the blocks of a chunk; `start` is set for its first block. -/
def chunkFrom (counter : Nat) (start : UInt32) (chain : Chain) (bytes : Text.Bytes) : Node :=
  let block := bytes.take 64
  let node : Node := ⟨chain, blockOf block, counter, block.length, start⟩
  if bytes.length ≤ 64 then { node with flags := start ||| chunkEnd }
  else chunkFrom counter 0 node.compress (bytes.drop 64)
termination_by bytes.length
decreasing_by simp; omega

def chunkSize : Nat := 1024

/-- Bytes in the left subtree over `n` bytes, which are more than one chunk: the largest power of
two of chunks that leaves something for the right. -/
def leftSize (n : Nat) : Nat := chunkSize * Nat.pow 2 (Nat.log2 ((n - 1) / chunkSize))

theorem leftSize_pos (n : Nat) : 0 < leftSize n := by
  have : 0 < Nat.pow 2 (Nat.log2 ((n - 1) / chunkSize)) := Nat.two_pow_pos _
  simp only [leftSize, chunkSize] at *
  omega

theorem leftSize_lt {n : Nat} (h : chunkSize < n) : leftSize n < n := by
  simp only [leftSize, chunkSize] at *
  have hne : (n - 1) / 1024 ≠ 0 := by omega
  have : Nat.pow 2 (Nat.log2 ((n - 1) / 1024)) ≤ (n - 1) / 1024 := Nat.log2_self_le hne
  omega

/-- The tree over bytes whose first chunk has the number `counter`. -/
def tree (counter : Nat) (bytes : Text.Bytes) : Node :=
  if _h : chunkSize < bytes.length then
    let n := leftSize bytes.length
    Node.join (tree counter (bytes.take n)) (tree (counter + n / chunkSize) (bytes.drop n))
  else chunkFrom counter chunkStart initial bytes
termination_by bytes.length
decreasing_by
  · have := leftSize_lt _h; simp; omega
  · have := leftSize_pos bytes.length; simp only [chunkSize] at _h; simp; omega

def hash (bytes : Text.Bytes) : Chain :=
  let n := tree 0 bytes
  { n with flags := n.flags ||| root }.compress

def wordBytes (w : UInt32) : List UInt8 :=
  [w.toUInt8, (w >>> 8).toUInt8, (w >>> 16).toUInt8, (w >>> 24).toUInt8]

def hex (bytes : Text.Bytes) : List Char :=
  ((hash bytes).toList.flatMap wordBytes).flatMap Text.Numeral.hexByte

def short (bytes : Text.Bytes) : String := String.ofList ((hex bytes).take 16)

end Digest
end ShellPrompt
