import Mathlib.Tactic

/-!
# Filling batches

Items go into batches in their order, each into the open batch if it fits and
into a new one otherwise.  What decides about an item is the filling of the open
batch, whatever that measures.  The first batch is open before there is an item
to go into it.
-/

namespace TarsCpp.Batching

variable {α σ : Type}

/-- How the filling of a batch is counted. -/
structure Filling (σ α : Type) where
  empty : σ
  add : σ → α → σ
  fits : σ → Bool

/-- The batches that are closed, when `batch` with the filling `state` is open
and some items are left.  An empty batch is closed like any other one, but not
at the end. -/
def batches (m : Filling σ α) : σ → List α → List α → List (List α)
  | _, batch, [] => if batch = [] then [] else [batch]
  | state, batch, item :: items =>
      if m.fits (m.add state item) then
        batches m (m.add state item) (batch ++ [item]) items
      else batch :: batches m (m.add m.empty item) [item] items

/-- The items go into the open batch, one after the other. -/
def Kept (m : Filling σ α) : σ → List α → Prop
  | _, [] => True
  | state, item :: items =>
      m.fits (m.add state item) = true ∧ Kept m (m.add state item) items

/-- A batch begins in front of these items. -/
inductive Begins (m : Filling σ α) (items : List α) : List α → Prop
  | first : Begins m items items
  | next {first item : α} {run later : List α}
      (begins : Begins m items (first :: (run ++ item :: later)))
      (kept : Kept m (m.add m.empty first) run)
      (full : m.fits (m.add (run.foldl m.add (m.add m.empty first)) item) =
        false) : Begins m items (item :: later)

variable {m : Filling σ α} {state : σ} {batch run items later : List α}

theorem flatten_batches :
    (batches m state batch items).flatten = batch ++ items := by
  induction items generalizing state batch with
  | nil =>
      rw [batches]
      split
      · next empty => simp [empty]
      · simp
  | cons item items induction =>
      rw [batches]
      split
      · rw [induction, List.append_assoc, List.singleton_append]
      · rw [List.flatten_cons, induction, List.singleton_append]

theorem batches_ne_nil (opened : batch ≠ []) :
    ∀ closed ∈ batches m state batch items, closed ≠ [] := by
  induction items generalizing state batch with
  | nil =>
      rw [batches, if_neg opened]
      exact fun closed member => List.mem_singleton.mp member ▸ opened
  | cons item items induction =>
      rw [batches]
      split
      · apply induction
        simp
      · exact List.forall_mem_cons.mpr
          ⟨opened, induction (List.cons_ne_nil item [])⟩

/-- Only the batch that is open at first can be closed empty. -/
theorem nil_notMem_batches_iff (m : Filling σ α) (items : List α) :
    (∀ closed ∈ batches m m.empty [] items, closed ≠ []) ↔
      ∀ item ∈ items.head?, m.fits (m.add m.empty item) = true := by
  cases items with
  | nil => simp [batches]
  | cons item items =>
      have others : ∀ closed ∈ batches m (m.add m.empty item) [item] items,
          closed ≠ [] := batches_ne_nil (List.cons_ne_nil item [])
      rw [batches, List.nil_append, List.head?_cons]
      by_cases fits : m.fits (m.add m.empty item) = true
      · rw [if_pos fits]
        simpa [fits] using others
      · rw [if_neg fits]
        simp [fits]

theorem batches_kept (kept : Kept m state run) :
    batches m state batch (run ++ later) =
      batches m (run.foldl m.add state) (batch ++ run) later := by
  induction run generalizing state batch with
  | nil => rw [List.nil_append, List.foldl_nil, List.append_nil]
  | cons item run induction =>
      obtain ⟨fits, kept⟩ := kept
      rw [List.cons_append, batches, if_pos fits, induction kept,
        List.foldl_cons, List.append_assoc, List.singleton_append]

theorem kept_concat {item : α} (kept : Kept m state run)
    (fits : m.fits (m.add (run.foldl m.add state) item) = true) :
    Kept m state (run ++ [item]) := by
  induction run generalizing state with
  | nil => exact ⟨fits, trivial⟩
  | cons other run induction => exact ⟨kept.1, induction kept.2 fits⟩

/-- The open batch grows until it is closed. -/
theorem exists_batch (opened : batch ≠ []) :
    ∃ closed ∈ batches m state batch items, batch <+: closed := by
  induction items generalizing state batch with
  | nil =>
      rw [batches, if_neg opened]
      exact ⟨batch, List.mem_singleton_self batch, List.prefix_rfl⟩
  | cons item items induction =>
      rw [batches]
      split
      · obtain ⟨closed, member, grown⟩ :=
          @induction (m.add state item) (batch ++ [item]) (by simp)
        exact ⟨closed, member, (List.prefix_append _ _).trans grown⟩
      · exact ⟨batch, List.mem_cons_self, List.prefix_rfl⟩

/-- The batches from a beginning on are batches of the whole. -/
theorem Begins.mem_batches {first : α}
    (begins : Begins m items (first :: later)) :
    ∀ closed ∈ batches m (m.add m.empty first) [first] later,
      closed ∈ batches m m.empty [] items := by
  generalize whole : first :: later = rest at begins
  induction begins generalizing first later with
  | first =>
      subst whole
      rw [batches, List.nil_append]
      split
      · exact fun closed member => member
      · exact fun closed member => List.mem_cons_of_mem _ member
  | @next first' item run later' begins kept full induction =>
      cases whole
      intro closed member
      apply induction rfl
      rw [batches_kept kept, batches, full]
      exact List.mem_cons_of_mem _ member

/-- Every batch has a beginning. -/
theorem exists_begins {first : α}
    (begins : Begins m items (first :: (run ++ later)))
    (kept : Kept m (m.add m.empty first) run) :
    ∀ closed ∈ batches m (run.foldl m.add (m.add m.empty first))
        (first :: run) later,
      ∃ first run later, closed = first :: run ∧
        Begins m items (first :: (run ++ later)) ∧
        Kept m (m.add m.empty first) run := by
  induction later generalizing first run with
  | nil =>
      rw [batches, if_neg (List.cons_ne_nil first run)]
      intro closed member
      exact ⟨first, run, [], List.mem_singleton.mp member, begins, kept⟩
  | cons item later induction =>
      rw [batches]
      split
      · next fits =>
          have joined : (first :: run) ++ [item] = first :: (run ++ [item]) :=
            List.cons_append
          have filling : m.add (run.foldl m.add (m.add m.empty first)) item =
              (run ++ [item]).foldl m.add (m.add m.empty first) := by
            rw [List.foldl_append, List.foldl_cons, List.foldl_nil]
          rw [joined, filling]
          apply induction
          · rw [List.append_assoc, List.singleton_append]
            exact begins
          · exact kept_concat kept fits
      · next full =>
          refine List.forall_mem_cons.mpr
            ⟨⟨first, run, item :: later, rfl, begins, kept⟩, ?_⟩
          have following : Begins m items (item :: later) :=
            begins.next kept (Bool.eq_false_iff.mpr full)
          exact @induction [] item following trivial

/-- What is inherited by the beginning of a batch holds of the batches with more
than one item exactly if it holds of all the items that are kept together. -/
theorem forall_batches_iff (m : Filling σ α) (items : List α)
    {property : List α → Prop}
    (inherited : ∀ {front back}, front <+: back → property back →
      property front) :
    (∀ closed ∈ batches m m.empty [] items, 1 < closed.length →
        property closed) ↔
      ∀ first run later, Begins m items (first :: (run ++ later)) →
        Kept m (m.add m.empty first) run → run ≠ [] →
        property (first :: run) := by
  constructor
  · intro holds first run later begins kept some_
    obtain ⟨closed, member, grown⟩ := @exists_batch _ _ m
      (run.foldl m.add (m.add m.empty first)) (first :: run) later
      (List.cons_ne_nil first run)
    apply inherited grown
    apply holds closed
    · apply begins.mem_batches
      rw [batches_kept kept]
      exact member
    · have shorter := grown.length_le
      have several := List.length_pos_iff.mpr some_
      rw [List.length_cons] at shorter
      omega
  · intro holds closed member several
    cases items with
    | nil => cases member
    | cons item items =>
        have among : closed ∈
            [] :: batches m (m.add m.empty item) [item] items := by
          rw [batches, List.nil_append] at member
          split at member
          · exact List.mem_cons_of_mem _ member
          · exact member
        rcases List.mem_cons.mp among with rfl | member
        · cases several
        · obtain ⟨first, run, later, rfl, begins, kept⟩ :=
            @exists_begins _ _ m [] _ items item .first trivial closed member
          apply holds first run later begins kept
          rintro rfl
          exact Nat.lt_irrefl 1 several

end TarsCpp.Batching
