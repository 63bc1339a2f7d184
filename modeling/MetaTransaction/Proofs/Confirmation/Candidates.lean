import MetaTransaction.Proofs.Confirmation.Reference

/-!
# Candidates of a window

The candidates of a window are the transactions of its logs in the order of block and log, each once.
The order is stable, and there is one such order. Dropping repetitions is what a scan does that keeps
a list of what it has seen: where all that has been seen is passed, the scan finds what it would find
without the list.

* `Log.InOrder.unique`, `Log.inOrder_mergeSort` — the stable order of block and log;
* `candidates_eq_transactions` — the candidates by that order;
* `unseen_cons` — what a scan has yet to see after an item; by induction with it, `upTo_unseen` and
  `findSome?_unseen`, where what has been seen is passed.
-/

namespace MetaTransaction

/-! ## The order of logs -/

/-- A list of logs in the order of block and log. Logs of one place stay as they are listed, so that
this determines the list even where places are shared (`Log.InOrder.unique`). -/
structure Log.InOrder (logs ordered : List Log) : Prop where
  sorted : ordered.Pairwise fun a b => a.place ≤ b.place
  stable : ∀ place, ordered.filter (fun log => log.place = place) =
    logs.filter (fun log => log.place = place)

theorem Log.inOrder_mergeSort (logs : List Log) : InOrder logs (logs.mergeSort notAfter) where
  sorted := (List.pairwise_mergeSort notAfter_trans notAfter_total logs).imp notAfter_iff.mp
  stable place := by
    -- logs of one place are sorted as they are listed, and sorting keeps sorted sublists
    have one : (logs.filter (·.place = place)).Pairwise fun a b => a.notAfter b = true := by
      refine List.pairwise_filter.mpr (List.pairwise_of_forall ?_)
      intro a b first second
      rw [notAfter_iff, of_decide_eq_true first, of_decide_eq_true second]
    have kept := (List.sublist_mergeSort notAfter_trans notAfter_total one
      List.filter_sublist).filter (·.place = place)
    simp only [List.filter_filter, Bool.and_self] at kept
    exact (kept.eq_of_length ((List.mergeSort_perm logs notAfter).filter _).length_eq.symm).symm

theorem Log.mem_of_filter_place {a b : List Log}
    (same : ∀ place, a.filter (fun log => log.place = place) =
      b.filter (fun log => log.place = place)) {x : Log} (mem : x ∈ a) : x ∈ b := by
  have found : x ∈ a.filter fun log => log.place = x.place :=
    List.mem_filter.mpr ⟨mem, decide_eq_true rfl⟩
  rw [same] at found
  exact List.mem_of_mem_filter found

/-- Sorted lists that agree place by place are equal. The induction takes off the first log of one
list: its place is the least one, so that the other list starts with the first log of this place
too. -/
theorem Log.eq_of_filter_place {a b : List Log} (sorted : a.Pairwise fun x y => x.place ≤ y.place)
    (sorted' : b.Pairwise fun x y => x.place ≤ y.place)
    (same : ∀ place, a.filter (fun log => log.place = place) =
      b.filter (fun log => log.place = place)) : a = b := by
  induction a generalizing b with
  | nil =>
    rw [eq_comm, List.eq_nil_iff_forall_not_mem]
    intro y mem
    cases mem_of_filter_place (fun place => (same place).symm) mem
  | cons x a ih =>
    cases b with
    | nil => cases mem_of_filter_place same List.mem_cons_self
    | cons y b =>
      obtain ⟨least, ordered⟩ := List.pairwise_cons.mp sorted
      obtain ⟨least', ordered'⟩ := List.pairwise_cons.mp sorted'
      -- each of the first logs occurs in the other list, so neither comes before the other
      have above : ∀ z ∈ x :: a, x.place ≤ z.place :=
        List.forall_mem_cons.mpr ⟨le_refl _, least⟩
      have above' : ∀ z ∈ y :: b, y.place ≤ z.place :=
        List.forall_mem_cons.mpr ⟨le_refl _, least'⟩
      have together : x.place = y.place := le_antisymm
        (above y (mem_of_filter_place (fun place => (same place).symm) List.mem_cons_self))
        (above' x (mem_of_filter_place same List.mem_cons_self))
      have first := same x.place
      simp only [List.filter_cons, together, decide_true, if_true] at first
      obtain rfl := (List.cons.inj first).1
      congr 1
      refine ih ordered ordered' ?_
      intro place
      have rest := same place
      simp only [List.filter_cons] at rest
      split at rest
      · exact (List.cons.inj rest).2
      · exact rest

/-- There is one such order. So nothing depends on how logs are sorted. -/
theorem Log.InOrder.unique {logs a b : List Log} (first : InOrder logs a) (second : InOrder logs b) :
    a = b :=
  eq_of_filter_place first.sorted second.sorted fun place =>
    (first.stable place).trans (second.stable place).symm

/-- Only the places of the logs have to be looked at, which makes the order of fixed logs
decidable. -/
theorem Log.inOrder_iff {logs ordered : List Log} :
    InOrder logs ordered ↔ (ordered.Pairwise fun a b => a.place ≤ b.place) ∧
      ∀ l ∈ ordered ++ logs, ordered.filter (fun log => log.place = l.place) =
        logs.filter (fun log => log.place = l.place) := by
  refine ⟨fun inOrder => ⟨inOrder.sorted, fun l _ => inOrder.stable l.place⟩, ?_⟩
  rintro ⟨sorted, stable⟩
  refine ⟨sorted, fun place => ?_⟩
  by_cases found : ∃ l ∈ ordered ++ logs, l.place = place
  · obtain ⟨l, mem, rfl⟩ := found
    exact stable l mem
  · -- neither list has a log in the place
    have none : ∀ l ∈ ordered ++ logs, ¬ decide (l.place = place) = true := by
      intro l mem here
      exact found ⟨l, mem, of_decide_eq_true here⟩
    rw [List.filter_eq_nil_iff.mpr fun l mem => none l (List.mem_append_left _ mem),
      List.filter_eq_nil_iff.mpr fun l mem => none l (List.mem_append_right _ mem)]

instance (logs ordered : List Log) : Decidable (Log.InOrder logs ordered) :=
  decidable_of_iff _ Log.inOrder_iff.symm

namespace Confirmation

variable {ε σ : Type}

/-- The transactions of logs, each once, in the order of their first logs. -/
def transactions (logs : List Log) : List Hash :=
  (logs.map Log.transactionHash).eraseDups

/-- The candidates are the transactions in the order of block and log, each at the place of its
first log. -/
theorem candidates_eq_transactions {logs ordered : List Log} (inOrder : Log.InOrder logs ordered) :
    candidates logs = transactions ordered := by
  rw [candidates, transactions, (Log.inOrder_mergeSort logs).unique inOrder]

/-! ## Lists with repetitions -/

section

variable {α β : Type} [DecidableEq α] {seen l : List α}

/-- The items that have not been seen, each once. -/
def unseen (seen l : List α) : List α :=
  (l.filter fun a => a ∉ seen).eraseDups

theorem unseen_nil (l : List α) : unseen [] l = l.eraseDups := by
  simp [unseen]

/-- A list is gone through item by item: what has been seen is left out, and anything else has been
seen from then on. This is the step of all inductions over `unseen`. -/
theorem unseen_cons (a : α) (seen l : List α) :
    unseen seen (a :: l) = if a ∈ seen then unseen seen l else a :: unseen (a :: seen) l := by
  by_cases old : a ∈ seen
  · simp [unseen, old]
  · simp only [unseen, old, not_false_eq_true, decide_true, List.filter_cons_of_pos,
      List.eraseDups_cons, List.filter_filter, if_false]
    congr 2
    refine List.filter_congr ?_
    intro b _
    by_cases same : b = a <;> simp [same, old]

theorem nodup_unseen (seen l : List α) : (unseen seen l).Nodup ∧ ∀ a ∈ unseen seen l, a ∉ seen := by
  induction l generalizing seen with
  | nil => simp [unseen]
  | cons a l ih =>
    rw [unseen_cons]
    split
    · exact ih seen
    · rename_i new
      obtain ⟨nodup, others⟩ := ih (a :: seen)
      refine ⟨List.nodup_cons.mpr ⟨fun mem => others a mem List.mem_cons_self, nodup⟩, ?_⟩
      intro b mem
      rcases List.mem_cons.mp mem with rfl | mem
      · exact new
      · exact fun old => others b mem (List.mem_cons_of_mem _ old)

/-- The items up to the first with a property, which is included. -/
def upTo (p : α → Bool) (l : List α) : List α :=
  l.take (l.findIdx p + 1)

omit [DecidableEq α] in
theorem upTo_cons (p : α → Bool) (a : α) (l : List α) :
    upTo p (a :: l) = if p a then [a] else a :: upTo p l := by
  rw [upTo, List.findIdx_cons]
  cases p a <;> simp [upTo]

/-- Going up to the first item with a property, items that were seen without it make no difference.
This is why the lookups of a scan that remembers what it has seen are those of one that does not,
each made once. -/
theorem upTo_unseen {p : α → Bool} (passed : ∀ a ∈ seen, p a = false) :
    upTo p (unseen seen l) = unseen seen (upTo p l) := by
  induction l generalizing seen with
  | nil => rfl
  | cons a l ih =>
    rw [unseen_cons, upTo_cons]
    by_cases old : a ∈ seen
    · rw [if_pos old, passed a old, if_neg Bool.false_ne_true, unseen_cons, if_pos old, ih passed]
    · rw [if_neg old, upTo_cons]
      by_cases hit : p a = true
      · rw [if_pos hit, if_pos hit, unseen_cons, if_neg old]
        rfl
      · have passed' : ∀ b ∈ a :: seen, p b = false :=
          List.forall_mem_cons.mpr ⟨Bool.eq_false_iff.mpr hit, passed⟩
        rw [if_neg hit, if_neg hit, unseen_cons, if_neg old, ih passed']

/-- A search finds the same among the items that have not been seen, if nothing was found at those
that have. The seen items are generalized in the induction, since each step adds one. -/
theorem findSome?_unseen {f : α → Option β} (passed : ∀ a ∈ seen, f a = none) :
    (unseen seen l).findSome? f = l.findSome? f := by
  induction l generalizing seen with
  | nil => rfl
  | cons a l ih =>
    rw [unseen_cons, List.findSome?_cons]
    split
    · rename_i old
      rw [passed a old, ih passed]
    · rw [List.findSome?_cons]
      cases hit : f a with
      | some b => rfl
      | none => exact ih (List.forall_mem_cons.mpr ⟨hit, passed⟩)

end

end Confirmation

end MetaTransaction
