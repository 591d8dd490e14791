/-!
# BLAKE3

The 256-bit hash of a byte string: the text is cut into chunks of 1024 bytes, each chunk is
compressed block by block into a chaining value, and the chaining values are joined pairwise by a
binary tree whose left subtrees are complete.
-/

namespace KernelWeaver.Digest.Blake3

/-- Eight words: the key and the outcome of a compression. -/
abbrev ChainingValue := Vector UInt32 8

/-- Sixteen words: a message block or the state of a compression. -/
abbrev Block := Vector UInt32 16

/-- The initial chaining value. -/
def initial : ChainingValue :=
  #v[0x6A09E667, 0xBB67AE85, 0x3C6EF372, 0xA54FF53A, 0x510E527F, 0x9B05688C, 0x1F83D9AB,
    0x5BE0CD19]

/-- Where each word of a message goes between rounds. -/
def permutation : Vector (Fin 16) 16 :=
  #v[2, 6, 3, 10, 7, 0, 4, 13, 1, 11, 12, 5, 9, 14, 15, 8]

/-- The first block of a chunk. -/
def chunkStart : UInt32 := 1

/-- The last block of a chunk. -/
def chunkEnd : UInt32 := 2

/-- A block that joins two subtrees. -/
def parent : UInt32 := 4

/-- The block at the root of the tree. -/
def root : UInt32 := 8

/-- `x` with its bits moved `n` places down, those that fall off reappearing on top. -/
def rotateRight (x n : UInt32) : UInt32 :=
  (x >>> n) ||| (x <<< (32 - n))

/-- Mixes two message words into four words of the state. -/
def mix (s : Block) (a b c d : Fin 16) (x y : UInt32) : Block :=
  let va := s[a] + s[b] + x
  let vd := rotateRight (s[d] ^^^ va) 16
  let vc := s[c] + vd
  let vb := rotateRight (s[b] ^^^ vc) 12
  let va := va + vb + y
  let vd := rotateRight (vd ^^^ va) 8
  let vc := vc + vd
  let vb := rotateRight (vb ^^^ vc) 7
  (((s.set a va).set b vb).set c vc).set d vd

/-- Mixes the columns and then the diagonals of the state. -/
def round (s m : Block) : Block :=
  let s := mix s 0 4 8 12 m[0] m[1]
  let s := mix s 1 5 9 13 m[2] m[3]
  let s := mix s 2 6 10 14 m[4] m[5]
  let s := mix s 3 7 11 15 m[6] m[7]
  let s := mix s 0 5 10 15 m[8] m[9]
  let s := mix s 1 6 11 12 m[10] m[11]
  let s := mix s 2 7 8 13 m[12] m[13]
  mix s 3 4 9 14 m[14] m[15]

/-- `n` rounds, the message permuted between them. -/
def rounds : Nat → Block → Block → Block
  | 0, s, _ => s
  | n + 1, s, m => rounds n (round s m) (permutation.map fun i => m[i])

/-- Compresses one block of `length` bytes into a chaining value. -/
def compress (cv : ChainingValue) (m : Block) (counter length : Nat) (flags : UInt32) :
    ChainingValue :=
  let counter : UInt64 := counter.toUInt64
  let s : Block :=
    #v[cv[0], cv[1], cv[2], cv[3], cv[4], cv[5], cv[6], cv[7],
      initial[0], initial[1], initial[2], initial[3],
      counter.toUInt32, (counter >>> 32).toUInt32, length.toUInt32, flags]
  let s := rounds 7 s m
  Vector.ofFn fun i : Fin 8 => s[i.val] ^^^ s[i.val + 8]

/-- The message block of up to 64 bytes, filled up with zeros. -/
def blockOf (bytes : List UInt8) : Block :=
  let bytes := bytes.toArray
  let byte (k : Nat) : UInt32 := (bytes.getD k 0).toUInt32
  Vector.ofFn fun i : Fin 16 =>
    let k := 4 * i.val
    byte k ||| (byte (k + 1) <<< 8) ||| (byte (k + 2) <<< 16) ||| (byte (k + 3) <<< 24)

/-- Compresses a chunk, or what is left of it after earlier blocks. -/
def chunk (cv : ChainingValue) (counter : Nat) (first : UInt32) (last : UInt32)
    (bytes : List UInt8) : ChainingValue :=
  if bytes.length ≤ 64 then
    compress cv (blockOf bytes) counter bytes.length (first ||| chunkEnd ||| last)
  else
    -- only the first block of a chunk is marked as such
    chunk (compress cv (blockOf (bytes.take 64)) counter 64 first) counter 0 last
      (bytes.drop 64)
termination_by bytes.length
decreasing_by simp only [List.length_drop]; omega

/-- The block that joins two chaining values. -/
def join (left right : ChainingValue) (last : UInt32) : ChainingValue :=
  compress initial (left ++ right) 0 64 (parent ||| last)

/-- The largest power of two below `n`, the size of the left subtree of `n` chunks. -/
def leftChunks (n : Nat) : Nat :=
  Nat.pow 2 (Nat.log2 (n - 1))

theorem leftChunks_lt {n : Nat} (h : 1 < n) : leftChunks n < n := by
  have : Nat.pow 2 (Nat.log2 (n - 1)) ≤ n - 1 := Nat.log2_self_le (by omega)
  unfold leftChunks
  omega

theorem leftChunks_pos (n : Nat) : 0 < leftChunks n :=
  Nat.two_pow_pos _

/-- The chaining value of a text of `n` chunks, the first of which has index `counter`. -/
def tree (n counter : Nat) (last : UInt32) (bytes : List UInt8) : ChainingValue :=
  if h : 1 < n then
    let k := leftChunks n
    join (tree k counter 0 (bytes.take (1024 * k)))
      (tree (n - k) (counter + k) 0 (bytes.drop (1024 * k))) last
  else chunk initial counter chunkStart last bytes
termination_by n
decreasing_by
  · exact leftChunks_lt h
  · have := leftChunks_pos n
    omega

/-- The four bytes of a word, lowest first. -/
def bytesOf (w : UInt32) : List UInt8 :=
  [w.toUInt8, (w >>> 8).toUInt8, (w >>> 16).toUInt8, (w >>> 24).toUInt8]

/-- The hash of a byte string. -/
def hash (bytes : List UInt8) : List UInt8 :=
  (tree ((bytes.length + 1023) / 1024) 0 root bytes).toList.flatMap bytesOf

theorem length_hash (bytes : List UInt8) : (hash bytes).length = 32 := by
  simp [hash, List.length_flatMap, bytesOf, List.map_const']

end KernelWeaver.Digest.Blake3
