import Wabbit.Parsing.Recovery

/-!
What parsers can read. A property of all items of the input is handed on from every parser to the
next, and becomes a property of what is read from them.
-/

namespace Wabbit.Parsing

variable {σ α β γ : Type}

namespace Cursor

/-- Whether all items from the place on satisfy a predicate. -/
def All (good : σ → Prop) (cursor : Cursor σ) : Prop := ∀ item ∈ cursor.ahead, good item.1

variable {good : σ → Prop} {cursor : Cursor σ}

private theorem All.peek (all : cursor.All good) {x : σ} (next : cursor.peek = some x) : good x := by
  unfold Cursor.peek at next
  obtain ⟨item, first, rfl⟩ := Option.map_eq_some_iff.mp next
  exact all item (List.mem_of_mem_head? first)

theorem All.advance (all : cursor.All good) : cursor.advance.All good := by
  unfold Cursor.advance
  split
  · exact all
  · rename_i item rest parts
    intro other member
    exact all other (by simp [parts, member])

private theorem All.skipWhile (all : cursor.All good) (keep : σ → Bool) :
    (cursor.skipWhile keep).All good := by
  have go (items : List (σ × Span)) (cursor : Cursor σ) (all : cursor.All good) :
      (Cursor.skipWhile.go keep items cursor).All good := by
    induction items generalizing cursor with
    | nil => exact all
    | cons item rest ih =>
      unfold Cursor.skipWhile.go
      split
      · exact ih cursor.advance all.advance
      · exact all
  exact go cursor.ahead cursor all

end Cursor

/-- From good items a parser reads values that satisfy a predicate, and it leaves good items. -/
def Yields (good : σ → Prop) (holds : α → Prop) (p : Parser σ α) : Prop :=
  ∀ cursor : Cursor σ, cursor.All good → ∀ s, p cursor = .done s →
    holds s.value ∧ s.rest.All good

namespace Yields

variable {good : σ → Prop} {holds : α → Prop} {holds' : β → Prop} {p : Parser σ α} {q : Parser σ β}

theorem map {f : α → β} (yields : Yields good holds p) (mapped : ∀ a, holds a → holds' (f a)) :
    Yields good holds' (p.map f) := by
  intro cursor all s done
  unfold Parser.map at done
  split at done
  · rename_i t read
    cases done
    obtain ⟨value, rest⟩ := yields cursor all t read
    exact ⟨mapped _ value, rest⟩
  · cases done

theorem imp {weaker : α → Prop} (yields : Yields good holds p) (implied : ∀ a, holds a → weaker a) :
    Yields good weaker p := by
  intro cursor all s done
  obtain ⟨value, rest⟩ := yields cursor all s done
  exact ⟨implied _ value, rest⟩

theorem spanned {p : Parser σ (Span → α)} (yields : Yields good (fun f => ∀ span, holds (f span)) p) :
    Yields good holds p.spanned := by
  intro cursor all s done
  unfold Parser.spanned at done
  split at done
  · rename_i t read
    cases done
    obtain ⟨value, rest⟩ := yields cursor all t read
    exact ⟨value _, rest⟩
  · cases done

theorem refine {f : α → Except Refusal β} (yields : Yields good holds p)
    (accepted : ∀ a b, holds a → f a = .ok b → holds' b) : Yields good holds' (p.refine f) := by
  intro cursor all s done
  unfold Parser.refine at done
  split at done
  · rename_i t read
    obtain ⟨value, rest⟩ := yields cursor all t read
    split at done
    · rename_i b kept
      cases done
      exact ⟨accepted _ _ value kept, rest⟩
    · cases done
  · cases done

theorem item {f : σ → Option α} (taken : ∀ x a, good x → f x = some a → holds a) :
    Yields good holds (Parser.item f) := by
  intro cursor all s done
  unfold Parser.item at done
  split at done
  · rename_i a read
    cases done
    obtain ⟨x, next, kept⟩ := Option.bind_eq_some_iff.mp read
    exact ⟨taken x a (all.peek next) kept, all.advance⟩
  · cases done

theorem satisfy (keep : σ → Bool) : Yields good (fun x => keep x = true) (Parser.satisfy keep) := by
  refine item fun x a _ kept => ?_
  by_cases passes : keep x = true
  · simp only [passes, ↓reduceIte, Option.some.injEq] at kept
    rw [← kept]
    exact passes
  · simp [passes] at kept

theorem finished : Yields good (fun _ => True) (Parser.finished : Parser σ Unit) := by
  intro cursor all s done
  unfold Parser.finished at done
  split at done
  · cases done
    exact ⟨trivial, all⟩
  · cases done

theorem padded (yields : Yields good holds p) (blank : σ → Bool) :
    Yields good holds (p.padded blank) := by
  intro cursor all s done
  unfold Parser.padded at done
  split at done
  · rename_i t read
    cases done
    obtain ⟨value, rest⟩ := yields _ (all.skipWhile blank) t read
    exact ⟨value, rest.skipWhile blank⟩
  · cases done

theorem optional (yields : Yields good holds p) :
    Yields good (fun value => ∀ a ∈ value, holds a) (Parser.optional p) := by
  intro cursor all s done
  unfold Parser.optional at done
  split at done
  · rename_i t read
    cases done
    obtain ⟨value, rest⟩ := yields cursor all t read
    exact ⟨by rintro a ⟨⟩; exact value, rest⟩
  · cases done
    exact ⟨nofun, all⟩

variable [DecidableEq σ]

theorem exactly (items : List σ) : Yields good (fun _ => True) (Parser.exactly items) := by
  intro cursor all s done
  induction items generalizing cursor with
  | nil =>
    cases done
    exact ⟨trivial, all⟩
  | cons x rest ih =>
    unfold Parser.exactly at done
    split at done
    · exact ih _ all.advance done
    · cases done

theorem just (x : σ) : Yields good (fun _ => True) (Parser.just x) := exactly [x]

theorem seq {f : α → β → γ} {both : γ → Prop} (first : Yields good holds p)
    (second : Yields good holds' q) (joined : ∀ a b, holds a → holds' b → both (f a b)) :
    Yields good both (Parser.seq f p q) := by
  intro cursor all s done
  unfold Parser.seq at done
  split at done
  · cases done
  · rename_i t read
    obtain ⟨value, rest⟩ := first cursor all t read
    split at done
    · cases done
    · rename_i u read'
      cases done
      obtain ⟨value', rest'⟩ := second t.rest rest u read'
      exact ⟨joined _ _ value value', rest'⟩

theorem both (first : Yields good holds p) (second : Yields good holds' q) :
    Yields good (fun pair => holds pair.1 ∧ holds' pair.2) (Parser.both p q) :=
  first.seq second fun _ _ left right => ⟨left, right⟩

theorem skipLeft (first : Yields good holds p) (second : Yields good holds' q) :
    Yields good holds' (Parser.skipLeft p q) :=
  first.seq second fun _ _ _ right => right

theorem skipRight (first : Yields good holds p) (second : Yields good holds' q) :
    Yields good holds (Parser.skipRight p q) :=
  first.seq second fun _ _ left _ => left

theorem between {holds'' : γ → Prop} {r : Parser σ γ} (first : Yields good holds p)
    (second : Yields good holds' q) (inner : Yields good holds'' r) :
    Yields good holds'' (Parser.between p q r) :=
  (first.skipLeft inner).skipRight second

theorem either {q : Parser σ α} (first : Yields good holds p) (second : Yields good holds q) :
    Yields good holds (Parser.either p q) := by
  intro cursor all s done
  unfold Parser.either at done
  split at done
  · rename_i t read
    cases done
    exact first cursor all s read
  · split at done
    · rename_i t read
      cases done
      exact second cursor all s read
    · cases done

theorem choice {ps : List (Parser σ α)} (each : ∀ p ∈ ps, Yields good holds p) :
    Yields good holds (Parser.choice ps) := by
  have after (earlier : Option (Fault σ)) : Yields good holds (Parser.choiceAfter earlier ps) := by
    intro cursor all s done
    induction ps generalizing earlier with
    | nil => cases done
    | cons p rest ih =>
      unfold Parser.choiceAfter at done
      split at done
      · rename_i t read
        cases done
        exact each p (by simp) cursor all s read
      · exact ih (fun p member => each p (by simp [member])) _ done
  exact after none

theorem many (yields : Yields good holds p) :
    Yields good (fun values => ∀ a ∈ values, holds a) (Parser.many p) := by
  have after (fuel : Nat) (before : Success σ Unit) (all : before.rest.All good) :
      (∀ a ∈ (Parser.manyAfter p before fuel).value, holds a) ∧
        (Parser.manyAfter p before fuel).rest.All good := by
    induction fuel generalizing before with
    | zero => exact ⟨nofun, all⟩
    | succ fuel ih =>
      unfold Parser.manyAfter
      split
      · exact ⟨nofun, all⟩
      · rename_i s read
        obtain ⟨value, rest⟩ := yields before.rest all s read
        obtain ⟨values, rest⟩ := ih ⟨before.recorded ++ s.recorded, (),
          Fault.weigh before.hint s.hint, s.rest⟩ rest
        exact ⟨List.forall_mem_cons.mpr ⟨value, values⟩, rest⟩
  intro cursor all s done
  cases done
  exact after _ _ all

theorem manyOnce (yields : Yields good holds p) :
    Yields good (fun values => ∀ a ∈ values, holds a) (Parser.manyOnce p) :=
  yields.seq yields.many fun _ _ first rest => List.forall_mem_cons.mpr ⟨first, rest⟩

theorem separated {separator : Parser σ β} (comma : Yields good holds' separator)
    (yields : Yields good holds p) :
    Yields good (fun values => ∀ a ∈ values, holds a) (Parser.separated separator p) := by
  have after (fuel : Nat) (before : Success σ Unit) (all : before.rest.All good) :
      (∀ a ∈ (Parser.separatedAfter separator p before fuel).1.value, holds a) ∧
        (Parser.separatedAfter separator p before fuel).1.rest.All good := by
    induction fuel generalizing before with
    | zero => exact ⟨nofun, all⟩
    | succ fuel ih =>
      unfold Parser.separatedAfter
      split
      · exact ⟨nofun, all⟩
      · rename_i c read
        obtain ⟨-, rest⟩ := comma before.rest all c read
        dsimp only
        split
        · exact ⟨nofun, all⟩
        · rename_i s read'
          obtain ⟨value, rest⟩ := yields c.rest rest s read'
          obtain ⟨values, rest⟩ := ih ⟨before.recorded ++ c.recorded ++ s.recorded, (),
            Fault.weigh (Fault.weigh before.hint c.hint) s.hint, s.rest⟩ rest
          exact ⟨List.forall_mem_cons.mpr ⟨value, values⟩, rest⟩
  intro cursor all s done
  unfold Parser.separated at done
  split at done
  · cases done
    exact ⟨nofun, all⟩
  · rename_i t read
    obtain ⟨value, rest⟩ := yields cursor all t read
    obtain ⟨values, rest⟩ := after (t.rest.ahead.length + 1) ⟨t.recorded, (), t.hint, t.rest⟩ rest
    cases done
    refine ⟨List.forall_mem_cons.mpr ⟨value, values⟩, ?_⟩
    dsimp only
    split
    · exact rest
    · rename_i c read'
      exact (comma _ rest c read').2

/-- Only items are skipped behind a bracketed part that cannot be read. -/
theorem recovering (yields : Yields good holds p) (brackets : Brackets σ) {fallback : α}
    (instead : holds fallback) : Yields good holds (Parser.recovering brackets fallback p) := by
  have skipped (items : List (σ × Span)) (cursor : Cursor σ) (scan : Scan σ) (all : cursor.All good) :
      ∀ rest ∈ (brackets.skip items cursor scan).1, rest.All good := by
    induction items generalizing cursor scan with
    | nil => exact nofun
    | cons x rest ih =>
      unfold Brackets.skip
      split
      · exact ih _ _ all.advance
      · split
        · split
          · exact nofun
          · rintro place ⟨⟩
            exact all.advance
          · exact ih _ _ all.advance
        · split
          · exact nofun
          · exact ih _ _ all.advance
  intro cursor all s done
  unfold Parser.recovering at done
  split at done
  · rename_i t read
    cases done
    exact yields cursor all s read
  · dsimp only at done
    split at done
    · cases done
    · rename_i place found
      cases done
      exact ⟨instead, skipped _ _ _ all place found⟩

end Yields

end Wabbit.Parsing
