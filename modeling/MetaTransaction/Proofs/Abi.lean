import Mathlib.Algebra.Group.Nat.Defs
import MetaTransaction.Abi

/-!
# Reading encodings from the front

Encodings are compared from the front: of two equal byte strings that start with encodings of the
same kind, the encoded values agree, and so does what follows. Words have a fixed width, and the body
of a byte string starts with its length. An array of bodies consists of its count, of a word for each
body that tells its place (`heads_bodies_append`), and of the bodies (`tails_bodies`).
-/

namespace MetaTransaction.Abi

variable {r s : Bytes}

/-! ## Words -/

@[simp] theorem length_number (n : Nat) : (number n).length = 32 :=
  Bytes.length_ofNat 32 n

@[simp] theorem length_bool (b : Bool) : (bool b).length = 32 :=
  length_number _

@[simp] theorem length_address (a : Address) : (address a).length = 32 := by
  rw [address, List.length_append, List.length_replicate, a.length_bytes]

theorem toNat_number (n : Nat) : Bytes.toNat (number n) = n % 2 ^ 256 :=
  Bytes.toNat_ofNat 32 n

/-- A word of a number tells it up to multiples of `2 ^ 256`, and where the rest begins. Like the
lemmas after it, this takes one item off an encoding; an encoding is read from left to right with
them. -/
theorem number_append_inj {m n : Nat} (h : number m ++ r = number n ++ s) :
    m % 2 ^ 256 = n % 2 ^ 256 ∧ r = s := by
  obtain ⟨same, rest⟩ := List.append_inj h (by simp)
  refine ⟨?_, rest⟩
  rw [← toNat_number, ← toNat_number, same]

theorem word_append_inj {a b : Word} (h : number a.toNat ++ r = number b.toNat ++ s) :
    a = b ∧ r = s := by
  obtain ⟨same, rest⟩ := number_append_inj h
  rw [Nat.mod_eq_of_lt a.isLt, Nat.mod_eq_of_lt b.isLt] at same
  exact ⟨BitVec.eq_of_toNat_eq same, rest⟩

theorem bool_append_inj {a b : Bool} (h : bool a ++ r = bool b ++ s) : a = b ∧ r = s := by
  obtain ⟨same, rest⟩ := number_append_inj h
  refine ⟨?_, rest⟩
  cases a <;> cases b <;> simp_all

theorem address_append_inj {a b : Address} (h : address a ++ r = address b ++ s) :
    a = b ∧ r = s := by
  obtain ⟨same, rest⟩ := List.append_inj h (by simp)
  exact ⟨FixedBytes.ext (List.append_cancel_left same), rest⟩

/-! ## Byte strings -/

/-- A byte string takes a word for its length, its bytes, and zeros up to a whole number of
words. -/
theorem length_bytes (data : Bytes) :
    (bytes data).length = 32 + data.length + (32 - data.length % 32) % 32 := by
  rw [bytes, List.length_append, List.length_append, length_number, List.length_replicate]

/-- The body of a byte string tells its own end. The bound says that the length fits its word. -/
theorem bytes_append_inj {a b : Bytes} (ha : a.length < 2 ^ 256) (hb : b.length < 2 ^ 256)
    (h : bytes a ++ r = bytes b ++ s) : a = b ∧ r = s := by
  simp only [bytes, List.append_assoc] at h
  obtain ⟨same, rest⟩ := number_append_inj h
  rw [Nat.mod_eq_of_lt ha, Nat.mod_eq_of_lt hb] at same
  obtain ⟨rfl, rest⟩ := List.append_inj rest same
  exact ⟨rfl, List.append_cancel_left rest⟩

/-! ## Arrays -/

theorem length_heads_bodies (offset : Nat) (items : List Bytes) :
    (heads offset (items.map .body)).length = 32 * items.length := by
  induction items generalizing offset with
  | nil => rfl
  | cons item items ih =>
    rw [List.map_cons, heads, List.length_append, length_number, ih, List.length_cons]
    omega

theorem tails_bodies (items : List Bytes) : tails (items.map .body) = items.flatten := by
  induction items with
  | nil => rfl
  | cons item items ih => rw [List.map_cons, tails, ih, List.flatten_cons]

/-- The place of a body lies behind the bodies before it. -/
theorem heads_bodies_append (offset : Nat) (before after : List Bytes) :
    heads offset ((before ++ after).map .body) =
      heads offset (before.map .body) ++
        heads (offset + before.flatten.length) (after.map .body) := by
  induction before generalizing offset with
  | nil => rfl
  | cons item before ih =>
    rw [List.cons_append, List.map_cons, heads, ih, List.map_cons, heads, List.append_assoc,
      List.flatten_cons, List.length_append, Nat.add_assoc]

theorem array_eq (items : List Bytes) :
    array items =
      number items.length ++
        (heads (32 * items.length) (items.map .body) ++ items.flatten) := by
  rw [array, tuple, List.length_map, tails_bodies]

/-- Arrays of equally many bodies differ in their bodies alone. Where the numbers are equal the
heads are of one length, so that the bodies begin in the same place. -/
theorem array_append_inj {xs ys : List Bytes} (same : xs.length = ys.length)
    (h : array xs ++ r = array ys ++ s) : xs.flatten ++ r = ys.flatten ++ s := by
  rw [array_eq, array_eq, List.append_assoc, List.append_assoc, List.append_assoc,
    List.append_assoc] at h
  obtain ⟨-, h⟩ := number_append_inj h
  refine (List.append_inj h ?_).2
  rw [length_heads_bodies, length_heads_bodies, same]

/-- Two truth values are not the places of bodies that lie `size` bytes apart. -/
theorem not_places_of_flags {a b : Bool} {offset size : Nat} (lower : 2 ≤ size)
    (upper : size < 2 ^ 256 - 1) :
    bool a ++ (bool b ++ r) ≠ number offset ++ (number (offset + size) ++ s) := by
  intro h
  obtain ⟨first, h⟩ := number_append_inj h
  obtain ⟨second, -⟩ := number_append_inj h
  -- both places would be zero or one up to multiples of `2 ^ 256`
  have small : ∀ c : Bool, (if c then 1 else 0) % 2 ^ 256 ≤ 1 := by decide
  have ha := small a
  have hb := small b
  rw [first] at ha
  rw [second] at hb
  omega

/-- An array whose first body starts with two truth values is not a shorter copy of another. The
counts could only differ by multiples of `2 ^ 256`; but where the bodies of the first array start,
the other one would still tell the places of two bodies. -/
theorem length_le_of_array_eq {xs ys : List Bytes} {a b : Bool} {rest : Bytes}
    (flags : xs.flatten = bool a ++ (bool b ++ rest))
    (sizes : ∀ y ∈ ys, 2 ≤ y.length ∧ y.length < 2 ^ 256 - 1) (h : array xs = array ys) :
    ys.length ≤ xs.length := by
  refine Nat.le_of_not_lt fun longer => ?_
  rw [array_eq, array_eq] at h
  obtain ⟨count, h⟩ := number_append_inj h
  -- the longer array has two more bodies at least, since the counts are congruent
  obtain ⟨before, y, z, after, rfl, even⟩ : ∃ before y z after,
      ys = before ++ y :: z :: after ∧ before.length = xs.length := by
    have next : xs.length + 1 < ys.length := by omega
    refine ⟨ys.take xs.length, ys[xs.length], ys[xs.length + 1], ys.drop (xs.length + 2), ?_, ?_⟩
    · rw [← List.drop_eq_getElem_cons, ← List.drop_eq_getElem_cons, List.take_append_drop]
    · rw [List.length_take]
      omega
  obtain ⟨lower, upper⟩ := sizes y (List.mem_append_right _ (List.mem_cons_self ..))
  rw [heads_bodies_append, List.append_assoc] at h
  obtain ⟨-, h⟩ := List.append_inj h (by rw [length_heads_bodies, length_heads_bodies, even])
  -- past the common places the truth values stand against two further places
  rw [flags, List.map_cons, List.map_cons, heads, heads, List.append_assoc, List.append_assoc] at h
  exact not_places_of_flags lower upper h

end MetaTransaction.Abi
