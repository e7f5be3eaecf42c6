/-! The BLAKE3 hash of a byte string: no key, 32 bytes of output.

The input is cut into chunks of 1024 bytes and each chunk into blocks of 64. The blocks of a chunk
are compressed one after another into a chaining value; neighbouring values are then joined in
pairs, level by level, until one node is left, and that node yields the digest. -/

set_option autoImplicit false

namespace Catchup.Blake3

abbrev Chain := Vector UInt32 8

abbrev Block := Vector UInt32 16

def initialChain : Chain :=
  #v[0x6A09E667, 0xBB67AE85, 0x3C6EF372, 0xA54FF53A,
     0x510E527F, 0x9B05688C, 0x1F83D9AB, 0x5BE0CD19]

def chunkStart : UInt32 := 1
def chunkEnd : UInt32 := 2
def joined : UInt32 := 4
def root : UInt32 := 8

def rotateRight (word count : UInt32) : UInt32 :=
  (word >>> count) ||| (word <<< (32 - count))

/-- Mix two message words into one column or diagonal of the state. -/
def mix (state : Block) (a b c d : Fin 16) (first second : UInt32) : Block :=
  let wordA := state[a] + state[b] + first
  let wordD := rotateRight (state[d] ^^^ wordA) 16
  let wordC := state[c] + wordD
  let wordB := rotateRight (state[b] ^^^ wordC) 12
  let wordA := wordA + wordB + second
  let wordD := rotateRight (wordD ^^^ wordA) 8
  let wordC := wordC + wordD
  let wordB := rotateRight (wordB ^^^ wordC) 7
  (((state.set a wordA).set b wordB).set c wordC).set d wordD

/-- Four columns, then four diagonals. -/
def round (state message : Block) : Block :=
  let state := mix state 0 4 8 12 message[0] message[1]
  let state := mix state 1 5 9 13 message[2] message[3]
  let state := mix state 2 6 10 14 message[4] message[5]
  let state := mix state 3 7 11 15 message[6] message[7]
  let state := mix state 0 5 10 15 message[8] message[9]
  let state := mix state 1 6 11 12 message[10] message[11]
  let state := mix state 2 7 8 13 message[12] message[13]
  mix state 3 4 9 14 message[14] message[15]

/-- Where each message word of the next round comes from. -/
def schedule : Vector (Fin 16) 16 :=
  #v[2, 6, 3, 10, 7, 0, 4, 13, 1, 11, 12, 5, 9, 14, 15, 8]

def reorder (message : Block) : Block :=
  schedule.map fun position => message[position]

/-- The given number of rounds, with the message reordered between them. -/
def rounds : Nat → Block → Block → Block
  | 0, state, _ => state
  | count + 1, state, message => rounds count (round state message) (reorder message)

/-- Everything one compression needs except the flag that marks the root. -/
structure Node where
  chain : Chain
  block : Block
  counter : UInt64
  length : UInt32
  flags : UInt32

def Node.compress (node : Node) (mark : UInt32) : Chain :=
  let state : Block := node.chain ++
    #v[initialChain[0], initialChain[1], initialChain[2], initialChain[3],
       node.counter.toUInt32, (node.counter >>> 32).toUInt32, node.length, node.flags ||| mark]
  let state := rounds 7 state node.block
  Vector.ofFn fun position : Fin 8 => state[position.val] ^^^ state[position.val + 8]

/-- So many pieces of `size` bytes, and a last one of all that is left. -/
def cut (size : Nat) : Nat → List UInt8 → List (List UInt8)
  | 0, bytes => [bytes]
  | count + 1, bytes => bytes.take size :: cut size count (bytes.drop size)

/-- Consecutive pieces of `size` bytes; the last may be shorter, and there is always one. -/
def pieces (size : Nat) (bytes : List UInt8) : List (List UInt8) :=
  cut size ((bytes.length - 1) / size) bytes

/-- Little-endian words, filled up with zeros. -/
def blockOfBytes (bytes : List UInt8) : Block :=
  let bytes := bytes.toArray
  let byte (position : Nat) : UInt32 := (bytes.getD position 0).toUInt32
  Vector.ofFn fun word : Fin 16 =>
    byte (4 * word) ||| (byte (4 * word + 1) <<< 8) ||| (byte (4 * word + 2) <<< 16) |||
      (byte (4 * word + 3) <<< 24)

def blockNode (chain : Chain) (position : Nat) (flags : UInt32) (bytes : List UInt8) : Node :=
  { chain, block := blockOfBytes bytes, counter := UInt64.ofNat position,
    length := UInt32.ofNat bytes.length, flags }

/-- The node of the chunk at the given position: every block but its last is compressed. -/
def chunkNode (position : Nat) (chunk : List UInt8) : Node :=
  let blocks := pieces 64 chunk
  let last := blocks.length - 1
  let flags (index : Nat) : UInt32 := if index = 0 then chunkStart else 0
  let chain := (blocks.take last).zipIdx.foldl (fun chain (bytes, index) =>
    (blockNode chain position (flags index) bytes).compress 0) initialChain
  blockNode chain position (flags last ||| chunkEnd) (blocks.getLastD [])

def join (left right : Node) : Node :=
  { chain := initialChain, block := left.compress 0 ++ right.compress 0,
    counter := 0, length := 64, flags := joined }

/-- One level of the tree: neighbours are joined, and an odd last node moves up as it is. -/
def joinPairs : List Node → List Node
  | left :: right :: rest => join left right :: joinPairs rest
  | nodes => nodes

def chunkNodes (bytes : List UInt8) : List Node :=
  (pieces 1024 bytes).zipIdx.map fun (chunk, position) => chunkNode position chunk

/-- The last node standing; a level at least halves the nodes, so there are levels enough. -/
def rootNode (bytes : List UInt8) : Node :=
  let nodes := chunkNodes bytes
  (Nat.repeat joinPairs nodes.length nodes).headD (chunkNode 0 [])

def hash (bytes : List UInt8) : Vector UInt8 32 :=
  let words := (rootNode bytes).compress root
  Vector.ofFn fun position : Fin 32 =>
    (words[position.val / 4] >>> (8 * UInt32.ofNat (position.val % 4))).toUInt8

end Catchup.Blake3
