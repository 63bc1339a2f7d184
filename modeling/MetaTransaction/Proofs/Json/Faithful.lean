import MetaTransaction.Json.Scalar
import MetaTransaction.Proofs.Json.Token

/-!
# JSON forms that read back

A JSON form is `Faithful` when every value is written plainly and read back.

* Numbers, words, byte strings and flags have faithful forms.
* `Faithful.list` — so have lists of what has one.
* `objectFields?_record` — an object hands to a reader the fields that it has;
* `fields?_record` — a record hands every field to its reader, as its keys are distinct;
* `Faithful.of_fields` — what is then left to show of a form that writes records.
-/

namespace MetaTransaction

namespace Numeral

theorem continueIn_digit {d : Nat} (hd : d < 16) (n : Nat) (rest : List Char) :
    continueIn 16 n (Nat.digitChar d :: rest) = continueIn 16 (n * 16 + d) rest := by
  simp [continueIn, digitValue?_digitChar hd, hd]

/-- The hexadecimal digits of a number write the number. -/
theorem continueIn_toDigits (n : Nat) (rest : List Char) :
    continueIn 16 0 (Nat.toDigits 16 n ++ rest) = continueIn 16 n rest := by
  induction n using Nat.strongRecOn generalizing rest with
  | _ n ih =>
    by_cases small : n < 16
    · rw [Nat.toDigits_of_lt_base small, List.singleton_append, continueIn_digit small,
        Nat.zero_mul, Nat.zero_add]
    · have value : n / 16 * 16 + n % 16 = n := Nat.div_add_mod' n 16
      rw [Nat.toDigits_of_base_le (by decide) (by omega), List.append_assoc,
        ih (n / 16) (by omega), List.singleton_append, continueIn_digit (by omega), value]

/-- A number of a given width reads back from its hexadecimal text. -/
theorem read?_quantity {bits : Nat} (w : BitVec bits) :
    read? bits (Hex.quantity w.toNat) = some w := by
  have digits : readNat? (Hex.quantity w.toNat).toList = some w.toNat := by
    have value := continueIn_toDigits w.toNat []
    rw [List.append_nil] at value
    rw [Hex.quantity, String.toList_ofList]
    exact value
  have fits : w.toNat < Nat.pow 2 bits := w.isLt
  simp only [read?, digits]
  rw [if_pos fits, BitVec.ofNat_toNat, BitVec.setWidth_eq]

end Numeral

/-- A byte string reads back from its text. The mark that is written is taken off again. -/
theorem Hex.read?_encodePrefixed (bytes : Bytes) : read? (encodePrefixed bytes) = some bytes := by
  have stripped :
      strip (Bytes.ofString (encodePrefixed bytes)) = Bytes.ofString (encode bytes) := by
    rw [encodePrefixed, encode, Bytes.ofString, Bytes.ofString, String.toList_ofList,
      String.toList_ofList]
    rfl
  rw [read?, stripped, decode_encode]
  rfl

namespace Json

/-- A JSON form in which every value is written plainly and read back. Forms of records are put
together from those of their fields, so that each type needs one short proof. -/
structure Faithful {α : Type} (toJson : α → Json) (ofJson? : Json → Option α) : Prop where
  plain : ∀ a, Plain (toJson a)
  read : ∀ a, ofJson? (toJson a) = some a

/-! ## Scalars -/

theorem faithful_bool : Faithful .bool bool? :=
  ⟨.bool, fun _ => rfl⟩

theorem faithful_uint64 : Faithful ofUInt64 uint64? :=
  ⟨fun _ => .natural _, uint64?_ofUInt64⟩

theorem faithful_word (bits : Nat) : Faithful ofWord (word? bits) :=
  ⟨fun _ => .string _, Numeral.read?_quantity⟩

theorem faithful_bytes : Faithful ofBytes bytes? :=
  ⟨fun _ => .string _, Hex.read?_encodePrefixed⟩

theorem faithful_fixedBytes (n : Nat) : Faithful ofFixedBytes (fixedBytes? n) := by
  refine ⟨fun _ => .string _, fun b => ?_⟩
  rw [fixedBytes?, ofFixedBytes, faithful_bytes.read, Option.bind_some, FixedBytes.ofBytes?_bytes]

theorem faithful_address : Faithful ofFixedBytes address? :=
  faithful_fixedBytes 20

theorem faithful_hash : Faithful ofFixedBytes hash? :=
  faithful_fixedBytes 32

/-! ## Lists and records -/

theorem mapM_eq_some {α β : Type} {f : α → Option β} {g : α → β} {as : List α}
    (h : ∀ a ∈ as, f a = some (g a)) : as.mapM f = some (as.map g) := by
  induction as with
  | nil => rfl
  | cons a as ih =>
    rw [List.mapM_cons, h a List.mem_cons_self, ih fun b hb => h b (List.mem_cons_of_mem a hb)]
    rfl

theorem Faithful.list {α : Type} {toJson : α → Json} {ofJson? : Json → Option α}
    (h : Faithful toJson ofJson?) :
    Faithful (fun as : List α => .array (as.map toJson)) (array? ofJson?) := by
  constructor
  · intro as
    refine .array fun j hj => ?_
    obtain ⟨a, -, rfl⟩ := List.mem_map.mp hj
    exact h.plain a
  · intro as
    rw [array?, List.mapM_map]
    exact (mapM_eq_some fun a _ => h.read a).trans (congrArg some (List.map_id as))

theorem plain_record {members : List (String × Json)} (h : ∀ m ∈ members, Plain m.2) :
    Plain (record members) := by
  refine .object fun m hm => ?_
  obtain ⟨m', hm', rfl⟩ := List.mem_map.mp hm
  exact h m' hm'

/-- The members of a record as they stand in the object. -/
def entries (members : List (String × Json)) : List (Option String × Json) :=
  members.map fun (key, value) => (some key, value)

theorem filter_entries_of_not_mem {members : List (String × Json)} {name : String}
    (absent : name ∉ members.map Prod.fst) :
    (entries members).filter (fun m => m.1 = some name) = [] := by
  simp only [List.filter_eq_nil_iff, entries, List.mem_map]
  rintro _ ⟨m, hm, rfl⟩ same
  have key : m.1 = name := by simpa using same
  exact absent (key ▸ List.mem_map_of_mem hm)

/-- A key has the value that it has in the record, and none when it is not there, as no key comes
twice. In general an object may repeat a key, and is then refused. -/
theorem member?_entries {members : List (String × Json)} (distinct : (members.map Prod.fst).Nodup)
    (name : String) : member? (entries members) name = some (members.lookup name) := by
  have found : (entries members).filter (fun entry => entry.1 = some name) =
      (members.lookup name).toList.map fun value => (some name, value) := by
    induction members with
    | nil => rfl
    | cons head members ih =>
      obtain ⟨key, value⟩ := head
      obtain ⟨absent, distinct⟩ := List.nodup_cons.mp distinct
      by_cases same : name = key
      · subst same
        have rest := filter_entries_of_not_mem absent
        rw [entries, List.map_cons, List.filter_cons_of_pos (by simp), ← entries, rest,
          List.lookup_cons_self]
        rfl
      · have other : (name == key) = false := beq_false_of_ne same
        rw [entries, List.map_cons, List.filter_cons_of_neg (by simp [Ne.symm same]), ← entries,
          ih distinct, List.lookup_cons, other]
  rw [member?, found]
  cases members.lookup name <;> rfl

theorem lookup_of_mem {members : List (String × Json)} (distinct : (members.map Prod.fst).Nodup)
    {m : String × Json} (mem : m ∈ members) : members.lookup m.1 = some m.2 := by
  induction members with
  | nil => cases mem
  | cons head members ih =>
    obtain ⟨absent, distinct⟩ := List.nodup_cons.mp distinct
    obtain rfl | mem := List.mem_cons.mp mem
    · rw [List.lookup_cons_self]
    · have key := List.mem_map_of_mem (f := Prod.fst) mem
      have other : (m.1 == head.1) = false := beq_false_of_ne fun same => absent (same ▸ key)
      rw [List.lookup_cons, other]
      exact ih distinct mem

/-- The fields of an object that may leave some out and have others. -/
theorem objectFields?_record {names : List String} {members : List (String × Json)}
    (distinct : (members.map Prod.fst).Nodup) :
    objectFields? names (record members) =
      some (names.map fun name => members.lookup name) := by
  have text : (entries members).all (fun m => m.1.isSome) := by
    simp [entries]
  calc objectFields? names (record members)
      = names.mapM (member? (entries members)) := if_pos text
    _ = some (names.map fun name => members.lookup name) :=
      mapM_eq_some fun name _ => member?_entries distinct name

/-- The fields of a record are the values of its members. -/
theorem fields?_record {names : List String} {members : List (String × Json)}
    (keys : members.map Prod.fst = names) (distinct : names.Nodup) :
    fields? names (record members) = some (members.map fun m => some m.2) := by
  subst keys
  calc fields? (members.map Prod.fst) (record members)
      = some ((members.map Prod.fst).map fun name => members.lookup name) :=
        objectFields?_record distinct
    _ = some (members.map fun m => some m.2) := by
      rw [List.map_map]
      exact congrArg some (List.map_congr_left fun m mem => lookup_of_mem distinct mem)

/-- A form that writes a record and reads its fields. It is enough that the fields read back, which
is a computation for each type. -/
theorem Faithful.of_fields {α : Type} {names : List String} {members : α → List (String × Json)}
    {ofFields? : List (Option Json) → Option α} (keys : ∀ a, (members a).map Prod.fst = names)
    (distinct : names.Nodup) (plain : ∀ a, ∀ m ∈ members a, Plain m.2)
    (read : ∀ a, ofFields? ((members a).map fun m => some m.2) = some a) :
    Faithful (fun a => record (members a)) (fun j => (fields? names j).bind ofFields?) := by
  refine ⟨fun a => plain_record (plain a), fun a => ?_⟩
  rw [fields?_record (keys a) distinct, Option.bind_some, read]

end Json

end MetaTransaction
