import Wabbit.Proofs.Parsing.Reads
import Wabbit.Proofs.Parsing.Takes

/-!
The way between two places of one input, told by the items on it with their spans. If the spans of
the input follow each other, then the span since a place goes from the first to the last item on the
way, and it lies inside the text.
-/

namespace Wabbit

/-- The span is a range of a text of `size` bytes. -/
def Span.Inside (size : Nat) (span : Span) : Prop := span.start ≤ span.stop ∧ span.stop ≤ size

namespace Parsing

variable {σ : Type}

/-- The span goes from the first of the items to the last. -/
def Covers (span : Span) (word : List (σ × Span)) : Prop :=
  ∃ first ∈ word.head?, ∃ last ∈ word.getLast?, span = ⟨first.2.start, last.2.stop⟩

/-- The spans of the items do not end before they start, and follow each other. -/
structure InOrder (word : List (σ × Span)) : Prop where
  valid : ∀ item ∈ word, item.2.start ≤ item.2.stop
  apart : word.Pairwise fun a b => a.2.stop ≤ b.2.start

section Spans

variable {word word' : List (σ × Span)} {span : Span} {item : σ × Span}

theorem Covers.ne_nil (covers : Covers span word) : word ≠ [] := by
  rintro rfl
  obtain ⟨_, first, -⟩ := covers
  cases first

private theorem Covers.bounded {size : Nat} (covers : Covers span word)
    (bounded : ∀ item ∈ word, item.2.stop ≤ size) : span.stop ≤ size := by
  obtain ⟨_, -, last, back, rfl⟩ := covers
  exact bounded last (List.mem_of_getLast? back)

theorem InOrder.of_append (ordered : InOrder (word ++ word')) : InOrder word ∧ InOrder word' := by
  obtain ⟨valid, apart⟩ := ordered
  obtain ⟨before, behind, -⟩ := List.pairwise_append.mp apart
  exact ⟨⟨fun item member => valid item (by simp [member]), before⟩,
    ⟨fun item member => valid item (by simp [member]), behind⟩⟩

/-- A span that goes from the first to the last item contains all items between them. -/
theorem Covers.contains (covers : Covers span word) (ordered : InOrder word) (member : item ∈ word) :
    span.start ≤ item.2.start ∧ item.2.stop ≤ span.stop := by
  obtain ⟨first, front, last, back, rfl⟩ := covers
  obtain ⟨rest, rfl⟩ := List.head?_eq_some_iff.mp front
  obtain ⟨initial, parts⟩ := List.getLast?_eq_some_iff.mp back
  have own := ordered.valid item member
  change first.2.start ≤ item.2.start ∧ item.2.stop ≤ last.2.stop
  constructor
  · obtain rfl | behind := List.mem_cons.mp member
    · exact Nat.le_refl _
    · have valid := ordered.valid first (by simp)
      have apart := List.rel_of_pairwise_cons ordered.apart behind
      omega
  · rw [parts] at member
    obtain before | same := List.mem_append.mp member
    · have valid := ordered.valid last (by simp [parts])
      have apart := ordered.apart
      rw [parts] at apart
      have apart := (List.pairwise_append.mp apart).2.2 item before last (by simp)
      omega
    · obtain rfl := List.mem_singleton.mp same
      exact Nat.le_refl _

end Spans

namespace Cursor

/-- The items between two places of one input. -/
structure Passes (cursor : Cursor σ) (word : List (σ × Span)) (place : Cursor σ) : Prop where
  ahead : cursor.ahead = word ++ place.ahead
  index : place.index = cursor.index + word.length
  reached : place.reached = (word.getLast?.map Prod.snd).getD cursor.reached
  finish : place.finish = cursor.finish

theorem areWays : AreWays id (Passes : Cursor σ → _) where
  stay _ := ⟨rfl, rfl, rfl, rfl⟩
  step := by
    intro cursor item rest ahead
    simp only [advance, ahead]
    exact ⟨by simp [ahead], rfl, rfl, rfl⟩
  trans := by
    intro cursor word place word' place' first second
    refine ⟨?_, ?_, ?_, second.finish.trans first.finish⟩
    · rw [first.ahead, second.ahead, List.append_assoc]
    · rw [second.index, first.index, List.length_append, Nat.add_assoc]
    · rw [second.reached, first.reached, List.getLast?_append]
      cases word'.getLast? <;> rfl
  length := by
    intro cursor word place passes
    rw [passes.ahead, List.length_append]

theorem Passes.items {cursor place : Cursor σ} {word : List (σ × Span)}
    (passes : cursor.Passes word place) : cursor.items = word.map Prod.fst ++ place.items := by
  rw [Cursor.items, passes.ahead, List.map_append]
  rfl

/-- The input from the place on lies inside a text of `size` bytes. -/
structure Inside (size : Nat) (cursor : Cursor σ) : Prop where
  ordered : InOrder cursor.ahead
  bounded : ∀ item ∈ cursor.ahead, item.2.stop ≤ size
  finish : cursor.finish.Inside size

variable {size : Nat} {cursor place : Cursor σ} {word : List (σ × Span)}

theorem Passes.since (passes : cursor.Passes word place) (nonempty : word ≠ []) :
    Covers (place.since cursor) word := by
  obtain ⟨first, rest, rfl⟩ := List.exists_cons_of_ne_nil nonempty
  refine ⟨first, rfl, (first :: rest).getLast nonempty, List.getLast?_eq_some_getLast nonempty, ?_⟩
  have further : cursor.index < place.index := by
    rw [passes.index]
    simp
  have reached : place.reached = ((first :: rest).getLast nonempty).2 := by
    rw [passes.reached, List.getLast?_eq_some_getLast nonempty]
    rfl
  simp only [Cursor.since, if_pos further, reached, here, passes.ahead, List.cons_append]

theorem Passes.since_nil (passes : cursor.Passes [] place) : place.since cursor = cursor.here := by
  have same : ¬ cursor.index < place.index := by
    rw [passes.index]
    simp
  simp only [Cursor.since, if_neg same]

theorem Inside.passes (inside : cursor.Inside size) (passes : cursor.Passes word place) :
    place.Inside size := by
  obtain ⟨ordered, bounded, finish⟩ := inside
  rw [passes.ahead] at ordered bounded
  refine ⟨ordered.of_append.2, fun item member => bounded item (by simp [member]), ?_⟩
  rw [passes.finish]
  exact finish

theorem Inside.here (inside : cursor.Inside size) : cursor.here.Inside size := by
  unfold Cursor.here
  split
  · exact inside.finish
  · rename_i item rest ahead
    exact ⟨inside.ordered.valid item (by simp [ahead]), inside.bounded item (by simp [ahead])⟩

theorem Inside.since (inside : cursor.Inside size) (passes : cursor.Passes word place) :
    (place.since cursor).Inside size := by
  by_cases nonempty : word = []
  · subst nonempty
    rw [passes.since_nil]
    exact inside.here
  · have covers := passes.since nonempty
    obtain ⟨ordered, bounded, -⟩ := inside
    rw [passes.ahead] at ordered bounded
    obtain ⟨item, member⟩ := List.exists_mem_of_ne_nil word nonempty
    have contains := covers.contains ordered.of_append.1 member
    have valid := ordered.valid item (by simp [member])
    exact ⟨by omega, covers.bounded fun item member => bounded item (by simp [member])⟩

end Cursor

end Parsing

end Wabbit
