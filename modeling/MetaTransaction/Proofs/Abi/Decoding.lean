import MetaTransaction.Proofs.Abi

/-!
# Reading encodings by their places

A contract reads a tuple by its places: the word with the number `i` stands in the head after `i`
others, and the word of a component of variable size tells where the body starts. Readers ignore
what comes after an encoding, so that bodies can be read inside of tuples; `Recovers` says that a
reader gets a value back from its encoding.

* `slotAt_tuple`, `bodyAt_tuple` — a tuple holds each component at its place;
* `bytes?_recovers`, `array?_recovers` — byte strings and arrays are read back.
-/

namespace MetaTransaction.Abi

variable {α : Type}

/-! ## Readers -/

/-- The word with the number `i`. -/
def slotAt (data : Bytes) (i : Nat) : Option Bytes :=
  if 32 * i + 32 ≤ data.length then some ((data.drop (32 * i)).take 32) else none

/-- The number in a word. -/
def numberAt (data : Bytes) (i : Nat) : Option Nat :=
  (slotAt data i).map Bytes.toNat

/-- The number of the virtual machine in a word. -/
def wordAt (data : Bytes) (i : Nat) : Option Word :=
  (numberAt data i).map (BitVec.ofNat 256)

/-- The truth value in a word, of which only zero and one write any. -/
def boolAt (data : Bytes) (i : Nat) : Option Bool :=
  (numberAt data i).bind fun n =>
    if n = 0 then some false else if n = 1 then some true else none

/-- The address in a word, which starts with zeros. -/
def addressAt (data : Bytes) (i : Nat) : Option Address :=
  (slotAt data i).bind fun word =>
    if word.take 12 = List.replicate 12 0 then FixedBytes.ofBytes? 20 (word.drop 12) else none

/-- The data from the place on that a word tells. -/
def bodyAt (data : Bytes) (i : Nat) : Option Bytes :=
  (numberAt data i).bind fun place =>
    if place ≤ data.length then some (data.drop place) else none

/-- What a reader finds at the place that a word tells. -/
def readAt (read : Bytes → Option α) (data : Bytes) (i : Nat) : Option α :=
  (bodyAt data i).bind read

/-- The byte string whose body comes first. -/
def bytes? (body : Bytes) : Option Bytes :=
  (numberAt body 0).bind fun length =>
    if 32 + length ≤ body.length then some ((body.drop 32).take length) else none

/-- What a reader finds at the places that `count` words tell, from the word `i` on. -/
def itemsAt (read : Bytes → Option α) (data : Bytes) : (count i : Nat) → Option (List α)
  | 0, _ => some []
  | count + 1, i =>
    (readAt read data i).bind fun item => (itemsAt read data count (i + 1)).map (item :: ·)

/-- The items of the array whose body comes first. -/
def array? (read : Bytes → Option α) (body : Bytes) : Option (List α) :=
  (numberAt body 0).bind fun count => itemsAt read (body.drop 32) count 0

/-- A reader gets a value back from its encoding, whatever comes after it. The rest is quantified
over so that a value may stand in the middle of data. -/
def Recovers (read : Bytes → Option α) (encoding : Bytes) (a : α) : Prop :=
  ∀ rest, read (encoding ++ rest) = some a

/-! ## Words in their places -/

theorem slotAt_append {before word rest : Bytes} {i : Nat} (place : before.length = 32 * i)
    (width : word.length = 32) : slotAt (before ++ (word ++ rest)) i = some word := by
  rw [slotAt, if_pos, List.drop_left' place, List.take_left' width]
  rw [List.length_append, List.length_append, place, width]
  omega

theorem slotAt_first {word rest : Bytes} (width : word.length = 32) :
    slotAt (word ++ rest) 0 = some word := by
  have first := @slotAt_append [] word rest 0 rfl width
  rwa [List.nil_append] at first

/-- A word of a number is read as the number, up to multiples of `2 ^ 256`. -/
theorem numberAt_of_slotAt {data : Bytes} {i n : Nat} (h : slotAt data i = some (number n)) :
    numberAt data i = some (n % 2 ^ 256) := by
  rw [numberAt, h, Option.map_some, toNat_number]

theorem wordAt_of_slotAt {data : Bytes} {i : Nat} {w : Word}
    (h : slotAt data i = some (number w.toNat)) : wordAt data i = some w := by
  rw [wordAt, numberAt_of_slotAt h, Option.map_some, Nat.mod_eq_of_lt w.isLt, BitVec.ofNat_toNat,
    BitVec.setWidth_eq]

theorem boolAt_of_slotAt {data : Bytes} {i : Nat} {b : Bool} (h : slotAt data i = some (bool b)) :
    boolAt data i = some b := by
  rw [boolAt, numberAt_of_slotAt h]
  cases b <;> rfl

theorem addressAt_of_slotAt {data : Bytes} {i : Nat} {a : Address}
    (h : slotAt data i = some (address a)) : addressAt data i = some a := by
  have zeros : (List.replicate 12 (0 : UInt8)).length = 12 := List.length_replicate
  rw [addressAt, h, Option.bind_some, address, List.take_left' zeros, if_pos rfl,
    List.drop_left' zeros, FixedBytes.ofBytes?_bytes]

/-! ## Components in their places -/

/-- A component in the head takes one word. -/
def Part.Sized : Part → Prop
  | .word bytes => bytes.length = 32
  | .body _ => True

theorem sized_bodies (items : List Bytes) : ∀ part ∈ items.map Part.body, part.Sized := by
  intro part mem
  obtain ⟨body, -, rfl⟩ := List.mem_map.mp mem
  trivial

theorem length_heads {offset : Nat} {parts : List Part} (sized : ∀ part ∈ parts, part.Sized) :
    (heads offset parts).length = 32 * parts.length := by
  induction parts generalizing offset with
  | nil => rfl
  | cons part parts ih =>
    rw [List.forall_mem_cons] at sized
    cases part with
    | word bytes =>
      have width : bytes.length = 32 := sized.1
      rw [heads, List.length_append, width, ih sized.2, List.length_cons]
      omega
    | body bytes =>
      rw [heads, List.length_append, length_number, ih sized.2, List.length_cons]
      omega

theorem tails_append (before after : List Part) :
    tails (before ++ after) = tails before ++ tails after := by
  induction before with
  | nil => rfl
  | cons part before ih =>
    cases part with
    | word bytes => rw [List.cons_append, tails, tails, ih]
    | body bytes => rw [List.cons_append, tails, tails, ih, List.append_assoc]

/-- The bodies of later components lie behind those of earlier ones, so that the places in the head
of the later ones start from there. -/
theorem heads_append (offset : Nat) (before after : List Part) :
    heads offset (before ++ after) =
      heads offset before ++ heads (offset + (tails before).length) after := by
  induction before generalizing offset with
  | nil => rfl
  | cons part before ih =>
    cases part with
    | word bytes => rw [List.cons_append, heads, heads, tails, ih, List.append_assoc]
    | body bytes =>
      rw [List.cons_append, heads, heads, tails, ih, List.append_assoc, List.length_append,
        Nat.add_assoc]

/-- A list around one of its elements. -/
theorem exists_eq_append_of_getElem? {β : Type} {l : List β} {i : Nat} {b : β}
    (h : l[i]? = some b) : ∃ before after, l = before ++ b :: after ∧ before.length = i := by
  obtain ⟨below, rfl⟩ := List.getElem?_eq_some_iff.mp h
  refine ⟨l.take i, l.drop (i + 1), ?_, ?_⟩
  · rw [← List.drop_eq_getElem_cons below, List.take_append_drop]
  · rw [List.length_take]
    omega

/-- A tuple is as long as its head and its bodies together. -/
theorem length_tuple {parts : List Part} (sized : ∀ part ∈ parts, part.Sized) :
    (tuple parts).length = 32 * parts.length + (tails parts).length := by
  rw [tuple, List.length_append, length_heads sized]

section

variable {parts : List Part} {i : Nat}

/-- A tuple around the head of one of its components. So what is read at a place of the head is read
from one component alone. -/
theorem tuple_split {part : Part} (sized : ∀ part ∈ parts, part.Sized)
    (h : parts[i]? = some part) :
    ∃ before after, parts = before ++ part :: after ∧
      ∃ head : Bytes, head.length = 32 * i ∧
        tuple parts = head ++ (heads (32 * parts.length + (tails before).length) [part] ++
          (heads (32 * parts.length + (tails before).length + (tails [part]).length) after ++
            tails parts)) := by
  obtain ⟨before, after, rfl, count⟩ := exists_eq_append_of_getElem? h
  have earlier : ∀ part ∈ before, part.Sized := fun part mem =>
    sized part (List.mem_append_left _ mem)
  refine ⟨before, after, rfl, heads (32 * (before ++ part :: after).length) before, ?_, ?_⟩
  · rw [length_heads earlier, count]
  · rw [tuple, heads_append, ← List.singleton_append, heads_append _ [part] after,
      List.append_assoc, List.append_assoc]

/-- A tuple holds a component of one word at its place. -/
theorem slotAt_tuple {word : Bytes} (sized : ∀ part ∈ parts, part.Sized)
    (h : parts[i]? = some (.word word)) (rest : Bytes) :
    slotAt (tuple parts ++ rest) i = some word := by
  have width : word.length = 32 := sized _ (List.mem_of_getElem? h)
  obtain ⟨before, after, -, head, place, eq⟩ := tuple_split sized h
  rw [eq, heads, heads, List.append_nil, List.append_assoc, List.append_assoc]
  exact slotAt_append place width

/-- A tuple tells the place of a component of variable size, and holds its body there. The place is
a number in one word, which is why the tuple has to be shorter than `2 ^ 256`. -/
theorem bodyAt_tuple {body : Bytes} (sized : ∀ part ∈ parts, part.Sized)
    (small : (tuple parts).length < 2 ^ 256) (h : parts[i]? = some (.body body)) (rest : Bytes) :
    ∃ more, bodyAt (tuple parts ++ rest) i = some (body ++ more) := by
  obtain ⟨before, after, split, head, place, eq⟩ := tuple_split sized h
  have bodies : tails parts = tails before ++ (body ++ tails after) := by
    rw [split, tails_append, tails]
  have width := length_tuple sized
  rw [bodies, List.length_append] at width
  have told : numberAt (tuple parts ++ rest) i =
      some (32 * parts.length + (tails before).length) := by
    have slot : slotAt (tuple parts ++ rest) i =
        some (number (32 * parts.length + (tails before).length)) := by
      rw [eq, heads, heads, List.append_nil, List.append_assoc, List.append_assoc]
      exact slotAt_append place (length_number _)
    rw [numberAt_of_slotAt slot, Nat.mod_eq_of_lt (by omega)]
  refine ⟨tails after ++ rest, ?_⟩
  rw [bodyAt, told, Option.bind_some, if_pos (by rw [List.length_append]; omega)]
  -- the place is behind the head and the bodies before
  have behind : (heads (32 * parts.length) parts ++ tails before).length =
      32 * parts.length + (tails before).length := by
    rw [List.length_append, length_heads sized]
  rw [tuple, bodies, ← List.append_assoc, List.append_assoc, List.drop_left' behind,
    List.append_assoc]

/-- A component of variable size is read back, if its reader recovers it from its body. -/
theorem readAt_tuple {read : Bytes → Option α} {body : Bytes} {a : α}
    (sized : ∀ part ∈ parts, part.Sized) (small : (tuple parts).length < 2 ^ 256)
    (h : parts[i]? = some (.body body)) (recovers : Recovers read body a) (rest : Bytes) :
    readAt read (tuple parts ++ rest) i = some a := by
  obtain ⟨more, found⟩ := bodyAt_tuple sized small h rest
  rw [readAt, found, Option.bind_some, recovers]

end

/-! ## Byte strings and arrays -/

/-- A byte string is read back. -/
theorem bytes?_recovers {data : Bytes} (small : data.length < 2 ^ 256) :
    Recovers bytes? (bytes data) data := by
  intro rest
  have slot : slotAt (bytes data ++ rest) 0 = some (number data.length) := by
    rw [bytes, List.append_assoc, List.append_assoc]
    exact slotAt_first (length_number _)
  rw [bytes?, numberAt_of_slotAt slot, Nat.mod_eq_of_lt small, Option.bind_some, if_pos]
  · rw [bytes, List.append_assoc, List.append_assoc, List.drop_left' (length_number _),
      List.take_left' rfl]
  · rw [List.length_append, length_bytes]
    omega

/-- The items of a tuple of bodies are read back, from any of them on. The induction is over the
items that are left, and the ones before are kept because places are counted from the start of the
tuple. -/
theorem itemsAt_tuple {read : Bytes → Option α} {encode : α → Bytes} (before after : List α)
    (recovers : ∀ a ∈ after, Recovers read (encode a) a)
    (small : (tuple (((before ++ after).map encode).map .body)).length < 2 ^ 256) (rest : Bytes) :
    itemsAt read (tuple (((before ++ after).map encode).map .body) ++ rest) after.length
      before.length = some after := by
  induction after generalizing before with
  | nil => rfl
  | cons a after ih =>
    have here : (((before ++ a :: after).map encode).map Part.body)[before.length]? =
        some (.body (encode a)) := by
      simp
    rw [List.forall_mem_cons] at recovers
    -- the items after `a` follow with `a` among those before
    have next := ih (before ++ [a]) recovers.2
    rw [List.append_assoc, List.singleton_append, List.length_append, List.length_singleton] at next
    rw [List.length_cons, itemsAt, readAt_tuple (sized_bodies _) small here recovers.1,
      Option.bind_some, next small, Option.map_some]

/-- An array is as long as the word of its number, the places and the items. -/
theorem length_array (items : List Bytes) :
    (array items).length = 32 + (32 * items.length + items.flatten.length) := by
  rw [array, List.length_append, length_number, length_tuple (sized_bodies items), List.length_map,
    tails_bodies]

/-- An array is read back, when its items are. Arrays of arrays are covered by using this twice. -/
theorem array?_recovers {read : Bytes → Option α} {encode : α → Bytes} {items : List α}
    (recovers : ∀ a ∈ items, Recovers read (encode a) a)
    (small : (array (items.map encode)).length < 2 ^ 256) :
    Recovers (array? read) (array (items.map encode)) items := by
  intro rest
  have count : items.length < 2 ^ 256 := by
    rw [length_array, List.length_map] at small
    omega
  have slot : slotAt (array (items.map encode) ++ rest) 0 = some (number items.length) := by
    rw [array, List.length_map, List.append_assoc]
    exact slotAt_first (length_number _)
  have inner : (tuple ((items.map encode).map .body)).length < 2 ^ 256 := by
    rw [array, List.length_append] at small
    omega
  rw [array?, numberAt_of_slotAt slot, Nat.mod_eq_of_lt count, Option.bind_some, array,
    List.append_assoc, List.drop_left' (length_number _)]
  exact itemsAt_tuple [] items recovers inner rest

end MetaTransaction.Abi
