import UpgradeSafety.Keccak.Permutation
import UpgradeSafety.Text.Hex

/-! Keccak-256, the hash that lays out dynamic storage and checks addresses. The message is padded
to blocks of 136 bytes, each block is added to the first lanes and permuted in, and
the first four lanes are the digest, read as one 256-bit number from its first byte down. -/
namespace UpgradeSafety.Keccak

/-- How many bytes one block holds. -/
def rate : Nat := 136

/-- A message filled up to whole blocks: a first byte `01`, a last byte `80`, zeros between. -/
def pad (message : Bytes) : Bytes :=
  let room := rate - message.length % rate
  if room = 1 then message ++ [0x81]
  else message ++ 0x01 :: (List.replicate (room - 2) 0x00 ++ [0x80])

/-- Eight bytes as a lane, the least significant first. -/
def lane (bs : Bytes) : UInt64 :=
  bs.foldr (fun b n => (n <<< 8) ||| b.toUInt64) 0

/-- The bytes of a lane, the least significant first. -/
def laneBytes (w : UInt64) : Bytes :=
  (List.range 8).map fun i => (w >>> (8 * i).toUInt64).toUInt8

/-- Adds the lanes of a block to the state. -/
def absorb (a : Lanes) (block : Bytes) : Lanes :=
  Vector.ofFn fun i =>
    if i.val < rate / 8 then a.get i ^^^ lane ((block.drop (8 * i.val)).take 8)
    else a.get i

/-- Permutes in one block after another; `blocks` counts them. -/
def absorbAll : Nat → Bytes → Lanes → Lanes
  | 0, _, a => a
  | blocks + 1, message, a =>
    absorbAll blocks (message.drop rate) (permute (absorb a (message.take rate)))

def digestBytes (message : Bytes) : Bytes :=
  let padded := pad message
  let a := absorbAll (padded.length / rate) padded (Vector.replicate 25 0)
  (a.toList.take 4).flatMap laneBytes

/-- The digest as a number. -/
def digest (message : Bytes) : BitVec 256 :=
  BitVec.ofNat 256 ((digestBytes message).foldl (fun n b => n * 256 + b.toNat) 0)

end UpgradeSafety.Keccak
