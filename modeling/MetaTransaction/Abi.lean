import MetaTransaction.Keccak

/-!
# Contract ABI

The encoding of a tuple is a head and a tail. A component of fixed size stands in the head; one of
variable size stands in the tail, and its head holds the distance of its body from the start of the
tuple. Every word has thirty-two bytes.
-/

namespace MetaTransaction.Abi

/-- The word of a number, most significant byte first. A number that is too large for a word loses
its upper bytes. -/
def number (n : Nat) : Bytes :=
  Bytes.ofNat 32 n

/-- The word of a truth value. -/
def bool (b : Bool) : Bytes :=
  number (if b then 1 else 0)

/-- The word of an address, whose bytes come last. -/
def address (a : Address) : Bytes :=
  List.replicate 12 0 ++ a.bytes

/-- A component of a tuple, already encoded: a word of fixed size, or a body of variable size to
which a place in the head points. -/
inductive Part
  /-- a component of one word -/
  | word (bytes : Bytes)
  /-- a component of variable size, by its body -/
  | body (bytes : Bytes)

/-- The head, where the first body starts `offset` bytes after the start of the tuple. Each body
pushes the places of the later ones further back by its length. -/
def heads (offset : Nat) : List Part → Bytes
  | [] => []
  | .word bytes :: parts => bytes ++ heads offset parts
  | .body bytes :: parts => number offset ++ heads (offset + bytes.length) parts

/-- The bodies one after another. -/
def tails : List Part → Bytes
  | [] => []
  | .word _ :: parts => tails parts
  | .body bytes :: parts => bytes ++ tails parts

/-- The encoding of a tuple: the head, and then the bodies in the order of their places. -/
def tuple (parts : List Part) : Bytes :=
  heads (32 * parts.length) parts ++ tails parts

/-- The body of a byte string: its length, then its bytes filled up to whole words with zeros. -/
def bytes (data : Bytes) : Bytes :=
  number data.length ++ data ++ List.replicate ((32 - data.length % 32) % 32) 0

/-- The body of an array whose items have variable size: their number, then their tuple. Places in
the tuple are counted from behind the number. -/
def array (items : List Bytes) : Bytes :=
  number items.length ++ tuple (items.map .body)

/-- The first four bytes of the hash of a function's signature, by which a contract knows the
function that is called. -/
def selector (signature : String) : Bytes :=
  (Keccak.hash (Bytes.ofString signature)).bytes.take 4

/-- The topic of an event: the hash of its signature. -/
def topic (signature : String) : Hash :=
  Keccak.hash (Bytes.ofString signature)

end MetaTransaction.Abi
