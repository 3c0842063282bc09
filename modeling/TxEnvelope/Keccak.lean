import TxEnvelope.Bytes

/-! Keccak with a 256-bit digest.

The state is 25 lanes of 64 bits; the lane at column x and row y has index
5y + x. Messages are padded by a one bit, zeros and a closing one bit to whole
blocks of 136 bytes.
-/

set_option autoImplicit false

namespace TxEnvelope.Keccak

abbrev State := Vector UInt64 25

def lane (state : State) (x y : Nat) : UInt64 :=
  state.get ⟨5 * (y % 5) + x % 5, by omega⟩

/-- The state whose lane at column x and row y is `f x y`. -/
def build (f : Nat → Nat → UInt64) : State :=
  Vector.ofFn fun i => f (i.val % 5) (i.val / 5)

def rotate (word : UInt64) (amount : UInt64) : UInt64 :=
  (word <<< amount) ||| (word >>> (64 - amount))

def rotations : State :=
  #v[ 0,  1, 62, 28, 27,
     36, 44,  6, 55, 20,
      3, 10, 43, 25, 39,
     41, 45, 15, 21,  8,
     18,  2, 61, 56, 14]

def roundConstants : List UInt64 :=
  [0x0000000000000001, 0x0000000000008082, 0x800000000000808a, 0x8000000080008000,
   0x000000000000808b, 0x0000000080000001, 0x8000000080008081, 0x8000000000008009,
   0x000000000000008a, 0x0000000000000088, 0x0000000080008009, 0x000000008000000a,
   0x000000008000808b, 0x800000000000008b, 0x8000000000008089, 0x8000000000008003,
   0x8000000000008002, 0x8000000000000080, 0x000000000000800a, 0x800000008000000a,
   0x8000000080008081, 0x8000000000008080, 0x0000000080000001, 0x8000000080008008]

/-- Adds to every lane the parities of two neighbouring columns. -/
def theta (state : State) : State :=
  let parity : Vector UInt64 5 := Vector.ofFn fun x =>
    lane state x 0 ^^^ lane state x 1 ^^^ lane state x 2 ^^^ lane state x 3 ^^^ lane state x 4
  let column (x : Nat) : UInt64 := parity.get ⟨x % 5, by omega⟩
  build fun x y => lane state x y ^^^ column (x + 4) ^^^ rotate (column (x + 1)) 1

/-- Rotates each lane and moves it to its new place. -/
def rhoPi (state : State) : State :=
  build fun x y => rotate (lane state (x + 3 * y) x) (lane rotations (x + 3 * y) x)

/-- Mixes each lane with the two to its right. -/
def chi (state : State) : State :=
  build fun x y => lane state x y ^^^ (~~~lane state (x + 1) y &&& lane state (x + 2) y)

def round (state : State) (constant : UInt64) : State :=
  let mixed := chi (rhoPi (theta state))
  mixed.set 0 (lane mixed 0 0 ^^^ constant)

def permute (state : State) : State :=
  roundConstants.foldl round state

def rate : Nat := 136

/-- The word whose least significant byte comes first. -/
def wordOfBytes (bytes : Bytes) : UInt64 :=
  bytes.foldr (fun byte word => word <<< 8 ||| byte.toUInt64) 0

def bytesOfWord (word : UInt64) : Bytes :=
  [word, word >>> 8, word >>> 16, word >>> 24, word >>> 32, word >>> 40, word >>> 48,
    word >>> 56].map UInt64.toUInt8

def padding (room : Nat) : Bytes :=
  -- With room for one byte the opening and the closing bit share it.
  if room = 1 then [0x81] else 0x01 :: (List.replicate (room - 2) 0 ++ [0x80])

def pad (message : Bytes) : Bytes :=
  message ++ padding (rate - message.length % rate)

def absorbBlock (state : State) (block : Bytes) : State :=
  permute (Vector.ofFn fun i => state[i] ^^^ wordOfBytes ((block.drop (8 * i.val)).take 8))

/-- Takes in whole blocks; fewer bytes than a block are left out. -/
def absorb (state : State) (input : Bytes) : State :=
  if input.length < rate then state
  else absorb (absorbBlock state (input.take rate)) (input.drop rate)
termination_by input.length
decreasing_by
  simp only [List.length_drop]
  unfold rate at *
  omega

def digest (message : Bytes) : Hash :=
  let state := absorb (Vector.replicate 25 0) (pad message)
  ⟨bytesOfWord state[0] ++ bytesOfWord state[1] ++ bytesOfWord state[2] ++ bytesOfWord state[3],
    by simp [bytesOfWord]⟩

end TxEnvelope.Keccak
