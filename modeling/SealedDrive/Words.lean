/-!
Stirring a state of sixteen words, as the stream cipher and the hash function do it: a quarter step
changes one column or one diagonal, and a round takes the four columns and then the four diagonals.
The two differ in the way the words are rotated and in what is added on the way.
-/

namespace SealedDrive

/-- Sixteen words: the state that is stirred, or a message block. -/
abbrev Words := Vector UInt32 16

namespace Words

/-- Mix two message words into one column or diagonal of the state. -/
@[specialize]
def quarter (rotate : UInt32 → UInt32 → UInt32) (v : Words) (a b c d : Fin 16) (x y : UInt32) :
    Words :=
  let va := v[a] + v[b] + x
  let vd := rotate (v[d] ^^^ va) 16
  let vc := v[c] + vd
  let vb := rotate (v[b] ^^^ vc) 12
  let va := va + vb + y
  let vd := rotate (vd ^^^ va) 8
  let vc := vc + vd
  let vb := rotate (vb ^^^ vc) 7
  (((v.set a va).set b vb).set c vc).set d vd

/-- One round: the four columns, then the four diagonals. Each step takes the next two words of
the message. -/
@[specialize]
def round (rotate : UInt32 → UInt32 → UInt32) (v m : Words) : Words :=
  let v := quarter rotate v 0 4 8 12 m[0] m[1]
  let v := quarter rotate v 1 5 9 13 m[2] m[3]
  let v := quarter rotate v 2 6 10 14 m[4] m[5]
  let v := quarter rotate v 3 7 11 15 m[6] m[7]
  let v := quarter rotate v 0 5 10 15 m[8] m[9]
  let v := quarter rotate v 1 6 11 12 m[10] m[11]
  let v := quarter rotate v 2 7 8 13 m[12] m[13]
  quarter rotate v 3 4 9 14 m[14] m[15]

/-- The order in which the next round reads the message words. -/
def permute (m : Words) : Words :=
  #v[m[2], m[6], m[3], m[10], m[7], m[0], m[4], m[13],
    m[1], m[11], m[12], m[5], m[9], m[14], m[15], m[8]]

/-- The first half of the words with the second half laid over it. -/
def fold (v : Words) : Vector UInt32 8 :=
  #v[v[0] ^^^ v[8], v[1] ^^^ v[9], v[2] ^^^ v[10], v[3] ^^^ v[11],
    v[4] ^^^ v[12], v[5] ^^^ v[13], v[6] ^^^ v[14], v[7] ^^^ v[15]]

end Words
end SealedDrive
