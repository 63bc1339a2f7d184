import MetaTransaction.Json.Parser
import MetaTransaction.Proofs.Json.Token

/-!
# Values from their text

The tokens of a value build the value, whatever containers are open around it and whatever follows
(`Plain.builds`). With the tokens of the compact text this gives that a value reads back from its
text (`Plain.parse?_compact`).
-/

namespace MetaTransaction.Json

/-- Goes on after a complete value. -/
def resume (value : Json) (frames : List Frame) (rest : List Token) : Option Json :=
  build (place value frames).1 (place value frames).2 rest

/-- The tokens of a value build it wherever a value is expected. -/
def Builds (j : Json) : Prop :=
  ∀ frames rest, build .value frames (j.tokens ++ rest) = resume j frames rest

/-- The items of an array are read after its opening bracket as they are after a comma. -/
theorem build_itemOrEnd (item : Json) (items : List Json) (frames : List Frame)
    (rest : List Token) :
    build .itemOrEnd frames (itemsTokens (item :: items) ++ rest) =
      build .value frames (itemsTokens (item :: items) ++ rest) := by
  have first (rest : List Token) : build .itemOrEnd frames (item.tokens ++ rest) =
      build .value frames (item.tokens ++ rest) := by
    cases item <;> simp [tokens, build, Expected.step]
  cases items with
  | nil => rw [itemsTokens, List.append_assoc, first]
  | cons next items => rw [itemsTokens_cons_cons, List.append_assoc, first]

/-- The items of an array build it, where each of them is built. -/
theorem build_items {item : Json} {items : List Json} (h : ∀ i ∈ item :: items, Builds i)
    (read : List Json) (frames : List Frame) (rest : List Token) :
    build .value (.items read :: frames) (itemsTokens (item :: items) ++ rest) =
      resume (.array (read.reverse ++ item :: items)) frames rest := by
  induction items generalizing item read with
  | nil =>
    rw [itemsTokens, List.append_assoc, h item List.mem_cons_self]
    simp [resume, place, build, Expected.step]
  | cons next items ih =>
    have tail := ih (fun i hi => h i (List.mem_cons_of_mem _ hi)) (item :: read)
    rw [itemsTokens_cons_cons, List.append_assoc, h item List.mem_cons_self]
    simpa [resume, place, build, Expected.step] using tail

/-- The members of an object build it, where each of their values is built. -/
theorem build_members {m : Option String × Json} {members : List (Option String × Json)}
    (h : ∀ m' ∈ m :: members, Builds m'.2) (read : List (Option String × Json))
    (frames : List Frame) (rest : List Token) :
    build .key (.members read :: frames) (membersTokens (m :: members) ++ rest) =
      resume (.object (read.reverse ++ m :: members)) frames rest := by
  induction members generalizing m read with
  | nil =>
    have value := h m List.mem_cons_self (.member read m.1 :: frames)
    rw [membersTokens, List.append_assoc]
    simp [build, Expected.step, value, resume, place]
  | cons next members ih =>
    have value := h m List.mem_cons_self (.member read m.1 :: frames)
    have tail := ih (fun m' hm => h m' (List.mem_cons_of_mem _ hm)) (m :: read)
    rw [membersTokens_cons_cons, List.append_assoc]
    simpa [build, Expected.step, value, resume, place] using tail

/-- The tokens of a value build it. -/
theorem Plain.builds {j : Json} (plain : Plain j) : Builds j := by
  induction plain with
  | null | bool | natural | string | brokenString => exact fun frames rest => rfl
  | @array items _ ih =>
    intro frames rest
    cases items with
    | nil => rfl
    | cons item items =>
      calc build .value frames ((Json.array (item :: items)).tokens ++ rest)
          = build .itemOrEnd (.items [] :: frames) (itemsTokens (item :: items) ++ rest) := rfl
        _ = build .value (.items [] :: frames) (itemsTokens (item :: items) ++ rest) :=
          build_itemOrEnd item items _ rest
        _ = resume (.array (item :: items)) frames rest := build_items ih [] frames rest
  | @object members _ ih =>
    intro frames rest
    cases members with
    | nil => rfl
    | cons m members =>
      calc build .value frames ((Json.object (m :: members)).tokens ++ rest)
          = build .keyOrEnd (.members [] :: frames) (membersTokens (m :: members) ++ rest) := rfl
        _ = build .key (.members [] :: frames) (membersTokens (m :: members) ++ rest) := by
          cases members <;> rfl
        _ = resume (.object (m :: members)) frames rest := build_members ih [] frames rest

/-- A value reads back from its compact text. -/
theorem Plain.parse?_compact {j : Json} (plain : Plain j) : parse? j.compact = some j := by
  have built := plain.builds [] []
  rw [List.append_nil] at built
  rw [parse?, plain.tokens?_compact, Option.bind_some, built]
  rfl

end MetaTransaction.Json
