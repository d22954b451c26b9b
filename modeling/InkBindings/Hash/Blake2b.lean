import InkBindings.Bytes.Basic
/-!
The hash function BLAKE2b without a key. A message is cut into blocks of sixteen words; the blocks
are mixed one after the other into a state of eight words, of which the digest is the beginning.
-/

namespace InkBindings.Blake2b

abbrev Word := UInt64

abbrev State := Vector Word 8

abbrev Block := Vector Word 16

def initialState : State :=
  #v[0x6a09e667f3bcc908, 0xbb67ae8584caa73b, 0x3c6ef372fe94f82b, 0xa54ff53a5f1d36f1,
    0x510e527fade682d1, 0x9b05688c2b3e6c1f, 0x1f83d9abfb41bd6b, 0x5be0cd19137e2179]

/-- The order in which each round takes the words of the block. -/
def schedule : Vector (Vector (Fin 16) 16) 10 :=
  #v[#v[0, 1, 2, 3, 4, 5, 6, 7, 8, 9, 10, 11, 12, 13, 14, 15],
    #v[14, 10, 4, 8, 9, 15, 13, 6, 1, 12, 0, 2, 11, 7, 5, 3],
    #v[11, 8, 12, 0, 5, 2, 15, 13, 10, 14, 3, 6, 7, 1, 9, 4],
    #v[7, 9, 3, 1, 13, 12, 11, 14, 2, 6, 5, 10, 4, 0, 15, 8],
    #v[9, 0, 5, 7, 2, 4, 10, 15, 14, 1, 11, 12, 6, 8, 3, 13],
    #v[2, 12, 6, 10, 0, 11, 8, 3, 4, 13, 7, 5, 15, 14, 1, 9],
    #v[12, 5, 1, 15, 14, 13, 4, 10, 0, 7, 6, 3, 9, 2, 8, 11],
    #v[13, 11, 7, 14, 12, 1, 3, 9, 5, 0, 15, 4, 8, 6, 2, 10],
    #v[6, 15, 14, 9, 11, 3, 0, 8, 12, 2, 13, 7, 1, 4, 10, 5],
    #v[10, 2, 8, 4, 7, 6, 1, 5, 15, 11, 9, 14, 3, 12, 13, 0]]

def roundCount : Nat := 12

def rotateRight (x : Word) (count : Word) : Word :=
  (x >>> count) ||| (x <<< (64 - count))

/-- Mixes two words of the block into four words of the work vector. -/
def mix (v : Block) (a b c d : Fin 16) (x y : Word) : Block :=
  let va := v[a] + v[b] + x
  let vd := rotateRight (v[d] ^^^ va) 32
  let vc := v[c] + vd
  let vb := rotateRight (v[b] ^^^ vc) 24
  let va := va + vb + y
  let vd := rotateRight (vd ^^^ va) 16
  let vc := vc + vd
  let vb := rotateRight (vb ^^^ vc) 63
  (((v.set a va).set b vb).set c vc).set d vd

/-- The columns and then the diagonals of the work vector, each with the place of its first word
in the order of the round. -/
def lanes : List (Fin 16 × Fin 16 × Fin 16 × Fin 16 × Fin 8) :=
  [(0, 4, 8, 12, 0), (1, 5, 9, 13, 1), (2, 6, 10, 14, 2), (3, 7, 11, 15, 3),
    (0, 5, 10, 15, 4), (1, 6, 11, 12, 5), (2, 7, 8, 13, 6), (3, 4, 9, 14, 7)]

def round (block v : Block) (r : Nat) : Block :=
  let order := schedule.get ⟨r % 10, Nat.mod_lt r (by decide)⟩
  lanes.foldl
    (fun v (a, b, c, d, i) =>
      mix v a b c d block[order[2 * i.val]] block[order[2 * i.val + 1]])
    v

/-- Mixes a block into the state. `count` is how many bytes there are up to its end. -/
def compress (h : State) (block : Block) (count : Nat) (isLast : Bool) : State :=
  let v : Block := h ++ initialState
  let v := v.set 12 (v[12] ^^^ UInt64.ofNat count)
  let v := v.set 13 (v[13] ^^^ UInt64.ofNat (count / 2 ^ 64))
  let v := if isLast then v.set 14 (~~~v[14]) else v
  let v := (List.range roundCount).foldl (round block) v
  Vector.ofFn fun i : Fin 8 => h[i] ^^^ v[i.val] ^^^ v[i.val + 8]

def wordBytes : Nat := 8
def blockBytes : Nat := 128

/-- The block whose words begin with these bytes; missing ones count as zeros. -/
def blockOf (b : Bytes) : Block :=
  Vector.ofFn fun i : Fin 16 =>
    UInt64.ofNat (Bytes.toNat ((b.drop (wordBytes * i)).take wordBytes))

/-- Mixes the rest of a message into the state; the last block may be empty. -/
def absorb (h : State) (done : Nat) (message : Bytes) : State :=
  if message.length ≤ blockBytes then
    compress h (blockOf message) (done + message.length) true
  else
    absorb (compress h (blockOf (message.take blockBytes)) (done + blockBytes) false)
      (done + blockBytes) (message.drop blockBytes)
  termination_by message.length
  decreasing_by
    simp only [List.length_drop, blockBytes] at *
    omega

/-- The digest of `size` bytes, of which there are at most 64. -/
def digest (size : Nat) (message : Bytes) : Bytes :=
  let parameters := 0x01010000 ^^^ UInt64.ofNat size
  let h := absorb (initialState.set 0 (initialState[0] ^^^ parameters)) 0 message
  (h.toList.flatMap fun w => Bytes.ofNat wordBytes w.toNat).take size

end InkBindings.Blake2b
