import Wabbit.Proofs.Parsing.Places

/-!
The faults that parsers tell of, whatever the input. If the input lies inside a text, the spans of
all faults do, those that are recorded and those that are kept as hints.
-/

namespace Wabbit.Parsing

variable {σ α β γ : Type}

/-- The spans that a fault tells of are ranges of a text of `size` bytes. -/
structure Fault.Inside (size : Nat) (fault : Fault σ) : Prop where
  span : fault.span.Inside size
  opened : ∀ opened delimiter, fault.reason = .unclosed opened delimiter → opened.Inside size

/-- Faults that are left behind lie inside the text, and there are none unless parsers go on after
them. -/
def Left (mends : Prop) (size : Nat) (recorded : List (Fault σ)) : Prop :=
  ∀ fault ∈ recorded, mends ∧ fault.Inside size

/-- What was read from the place on, and faults that lie inside the text. -/
structure Success.Explained (mends : Prop) (size : Nat) (cursor : Cursor σ) (s : Success σ α) :
    Prop where
  passes : ∃ word, cursor.Passes word s.rest
  left : Left mends size s.recorded
  hint : ∀ fault ∈ s.hint, fault.Inside size

/-- A success or failure whose faults lie inside the text. -/
inductive Reply.Explained (mends : Prop) (size : Nat) (cursor : Cursor σ) : Reply σ α → Prop where
  | done {s : Success σ α} (explained : s.Explained mends size cursor) :
      Explained mends size cursor (.done s)
  | failed {recorded : List (Fault σ)} {fault : Fault σ} (left : Left mends size recorded)
      (inside : fault.Inside size) : Explained mends size cursor (.failed recorded fault)

/-- Wherever the input lies inside a text, so do the faults that the parser tells of. -/
def Explains (mends : Prop) (size : Nat) (p : Parser σ α) : Prop :=
  ∀ cursor : Cursor σ, cursor.Inside size → (p cursor).Explained mends size cursor

section Faults

variable [DecidableEq σ] {size : Nat} {a b : Fault σ} {earlier later : Option (Fault σ)}

private theorem Fault.Inside.merge (first : a.Inside size) (second : b.Inside size) :
    (a.merge b).Inside size := by
  refine ⟨first.span, ?_⟩
  intro opened delimiter reason
  unfold Fault.merge at reason
  dsimp only at reason
  split at reason
  · exact second.opened opened delimiter reason
  · exact first.opened opened delimiter reason

theorem Fault.Inside.furthest (first : a.Inside size) (second : b.Inside size) :
    (a.furthest b).Inside size := by
  unfold Fault.furthest
  split
  · exact first
  · split
    · exact second
    · exact first.merge second

theorem Fault.Inside.after (inside : a.Inside size) (before : ∀ fault ∈ earlier, fault.Inside size) :
    (a.after earlier).Inside size := by
  cases earlier with
  | none => exact inside
  | some fault => exact inside.furthest (before fault rfl)

theorem Fault.inside_weigh (before : ∀ fault ∈ earlier, fault.Inside size)
    (behind : ∀ fault ∈ later, fault.Inside size) :
    ∀ fault ∈ Fault.weigh earlier later, fault.Inside size := by
  cases later with
  | none => exact before
  | some fault =>
    rintro _ ⟨⟩
    exact (behind fault rfl).after before

end Faults

section Places

variable {mends : Prop} {size : Nat} {cursor place : Cursor σ} {word : List (σ × Span)}

theorem Left.nil : Left mends size ([] : List (Fault σ)) := nofun

theorem Left.append {recorded recorded' : List (Fault σ)} (left : Left mends size recorded)
    (left' : Left mends size recorded') : Left mends size (recorded ++ recorded') :=
  List.forall_mem_append.mpr ⟨left, left'⟩

theorem Cursor.Inside.unexpected (inside : cursor.Inside size) (expected : List (Option σ)) :
    (cursor.unexpected expected).Inside size :=
  ⟨inside.here, nofun⟩

theorem Cursor.passes_advance (cursor : Cursor σ) : ∃ word, cursor.Passes word cursor.advance := by
  cases ahead : cursor.ahead with
  | nil =>
    have same : cursor.advance = cursor := by simp only [Cursor.advance, ahead]
    rw [same]
    exact ⟨[], Cursor.areWays.stay cursor⟩
  | cons item rest => exact ⟨[item], Cursor.areWays.step ahead⟩

/-- What is read from a later place on is read from here on, too. -/
theorem Success.Explained.later {s : Success σ α} (passes : cursor.Passes word place)
    (explained : s.Explained mends size place) : s.Explained mends size cursor := by
  obtain ⟨⟨word', passes'⟩, left, hint⟩ := explained
  exact ⟨⟨word ++ word', Cursor.areWays.trans passes passes'⟩, left, hint⟩

end Places

namespace Explains

variable {mends : Prop} {size : Nat}

section Basic

variable {p : Parser σ α}

theorem map {f : α → β} (explains : Explains mends size p) : Explains mends size (p.map f) := by
  intro cursor inside
  have explained := explains cursor inside
  unfold Parser.map
  generalize p cursor = reply at explained ⊢
  cases explained with
  | done explained => exact .done ⟨explained.passes, explained.left, explained.hint⟩
  | failed left fault => exact .failed left fault

theorem spanned {p : Parser σ (Span → α)} (explains : Explains mends size p) :
    Explains mends size p.spanned := by
  intro cursor inside
  have explained := explains cursor inside
  unfold Parser.spanned
  generalize p cursor = reply at explained ⊢
  cases explained with
  | done explained => exact .done ⟨explained.passes, explained.left, explained.hint⟩
  | failed left fault => exact .failed left fault

theorem refine {f : α → Except Refusal β} (explains : Explains mends size p) :
    Explains mends size (p.refine f) := by
  intro cursor inside
  have explained := explains cursor inside
  unfold Parser.refine
  generalize p cursor = reply at explained ⊢
  cases explained with
  | done explained =>
    dsimp only
    split
    · exact .done ⟨explained.passes, explained.left, explained.hint⟩
    · obtain ⟨word, passes⟩ := explained.passes
      exact .failed explained.left ⟨inside.since passes, nofun⟩
  | failed left fault => exact .failed left fault

theorem item {f : σ → Option α} : Explains mends size (Parser.item f) := by
  intro cursor inside
  unfold Parser.item
  split
  · exact .done ⟨cursor.passes_advance, .nil, nofun⟩
  · exact .failed .nil (inside.unexpected _)

theorem satisfy (keep : σ → Bool) : Explains mends size (Parser.satisfy keep) := item

theorem finished : Explains mends size (Parser.finished : Parser σ Unit) := by
  intro cursor inside
  unfold Parser.finished
  split
  · exact .done ⟨⟨[], Cursor.areWays.stay cursor⟩, .nil, nofun⟩
  · exact .failed .nil (inside.unexpected _)

theorem padded (blank : σ → Bool) (explains : Explains mends size p) :
    Explains mends size (p.padded blank) := by
  intro cursor inside
  obtain ⟨front, -, before⟩ := Takes.skipWhile Cursor.areWays blank cursor
  have explained := explains _ (inside.passes before)
  unfold Parser.padded
  generalize p (cursor.skipWhile blank) = reply at explained ⊢
  cases explained with
  | @done s explained =>
    obtain ⟨word, passes⟩ := explained.passes
    obtain ⟨back, -, behind⟩ := Takes.skipWhile Cursor.areWays blank s.rest
    have passes' := Cursor.areWays.trans (Cursor.areWays.trans before passes) behind
    exact .done ⟨⟨_, passes'⟩, explained.left, explained.hint⟩
  | failed left fault => exact .failed left fault

theorem optional (explains : Explains mends size p) : Explains mends size (Parser.optional p) := by
  intro cursor inside
  have explained := explains cursor inside
  unfold Parser.optional
  generalize p cursor = reply at explained ⊢
  cases explained with
  | done explained => exact .done ⟨explained.passes, explained.left, explained.hint⟩
  | failed left fault =>
    exact .done ⟨⟨[], Cursor.areWays.stay cursor⟩, .nil, by rintro _ ⟨⟩; exact fault⟩

end Basic

section Combined

variable [DecidableEq σ] {p : Parser σ α} {q : Parser σ β} {r : Parser σ γ}

theorem exactly (items : List σ) : Explains mends size (Parser.exactly items) := by
  intro cursor inside
  induction items generalizing cursor with
  | nil => exact .done ⟨⟨[], Cursor.areWays.stay cursor⟩, .nil, nofun⟩
  | cons x more ih =>
    unfold Parser.exactly
    split
    · obtain ⟨word, passes⟩ := cursor.passes_advance
      have explained := ih cursor.advance (inside.passes passes)
      generalize Parser.exactly more cursor.advance = reply at explained ⊢
      cases explained with
      | done explained => exact .done (explained.later passes)
      | failed left fault => exact .failed left fault
    · exact .failed .nil (inside.unexpected _)

theorem just (x : σ) : Explains mends size (Parser.just x) := exactly [x]

theorem seq {f : α → β → γ} (first : Explains mends size p) (second : Explains mends size q) :
    Explains mends size (Parser.seq f p q) := by
  intro cursor inside
  have explained := first cursor inside
  unfold Parser.seq
  generalize p cursor = reply at explained ⊢
  cases explained with
  | failed left fault => exact .failed left fault
  | @done s explained =>
    obtain ⟨word, passes⟩ := explained.passes
    have explained' := second s.rest (inside.passes passes)
    dsimp only
    generalize q s.rest = reply' at explained' ⊢
    cases explained' with
    | failed left fault => exact .failed (explained.left.append left) (fault.after explained.hint)
    | done explained' =>
      exact .done ⟨(explained'.later passes).passes, explained.left.append explained'.left,
        Fault.inside_weigh explained.hint explained'.hint⟩

theorem both (first : Explains mends size p) (second : Explains mends size q) :
    Explains mends size (Parser.both p q) := first.seq second

theorem skipLeft (first : Explains mends size p) (second : Explains mends size q) :
    Explains mends size (Parser.skipLeft p q) := first.seq second

theorem skipRight (first : Explains mends size p) (second : Explains mends size q) :
    Explains mends size (Parser.skipRight p q) := first.seq second

theorem between (first : Explains mends size p) (second : Explains mends size q)
    (inner : Explains mends size r) : Explains mends size (Parser.between p q r) :=
  (first.skipLeft inner).skipRight second

theorem either {q : Parser σ α} (first : Explains mends size p) (second : Explains mends size q) :
    Explains mends size (Parser.either p q) := by
  intro cursor inside
  have explained := first cursor inside
  have explained' := second cursor inside
  unfold Parser.either
  generalize p cursor = reply at explained ⊢
  cases explained with
  | done explained => exact .done explained
  | failed _ fault =>
    dsimp only
    generalize q cursor = reply' at explained' ⊢
    cases explained' with
    | done explained' => exact .done explained'
    | failed _ fault' => exact .failed .nil (fault.furthest fault')

private theorem choiceAfter {ps : List (Parser σ α)} (each : ∀ p ∈ ps, Explains mends size p)
    {cursor : Cursor σ} (inside : cursor.Inside size) {earlier : Option (Fault σ)}
    (before : ∀ fault ∈ earlier, fault.Inside size) :
    (Parser.choiceAfter earlier ps cursor).Explained mends size cursor := by
  induction ps generalizing earlier with
  | nil =>
    refine .failed .nil ?_
    cases earlier with
    | none => exact inside.unexpected _
    | some fault => exact before fault rfl
  | cons p rest ih =>
    have explained := each p (by simp) cursor inside
    unfold Parser.choiceAfter
    generalize p cursor = reply at explained ⊢
    cases explained with
    | done explained => exact .done explained
    | failed _ fault =>
      refine ih (fun p member => each p (by simp [member])) ?_
      rintro _ ⟨⟩
      exact fault.after before

theorem choice {ps : List (Parser σ α)} (each : ∀ p ∈ ps, Explains mends size p) :
    Explains mends size (Parser.choice ps) := by
  intro cursor inside
  exact choiceAfter each inside (by simp)

/-- The rounds of a repetition explain what they leave out, if what was read before them does. -/
theorem manyAfter (explains : Explains mends size p) {cursor : Cursor σ}
    (inside : cursor.Inside size) {fuel : Nat} {before : Success σ Unit}
    (explained : before.Explained mends size cursor) :
    (Parser.manyAfter p before fuel).Explained mends size cursor := by
  induction fuel generalizing before with
  | zero => exact ⟨explained.passes, explained.left, explained.hint⟩
  | succ fuel ih =>
    obtain ⟨word, passes⟩ := explained.passes
    have round := explains before.rest (inside.passes passes)
    unfold Parser.manyAfter
    generalize p before.rest = reply at round ⊢
    cases round with
    | @failed recorded fault left fault_inside =>
      refine ⟨explained.passes, explained.left, ?_⟩
      rintro _ ⟨⟩
      refine Fault.Inside.after ?_ explained.hint
      cases recorded with
      | nil => exact fault_inside
      | cons first more => exact (left first (by simp)).2.furthest fault_inside
    | @done s round =>
      have both : Success.Explained mends size cursor
          ⟨before.recorded ++ s.recorded, (), Fault.weigh before.hint s.hint, s.rest⟩ :=
        ⟨(round.later passes).passes, explained.left.append round.left,
          Fault.inside_weigh explained.hint round.hint⟩
      have further := ih both
      exact ⟨further.passes, further.left, further.hint⟩

theorem many (explains : Explains mends size p) : Explains mends size (Parser.many p) := by
  intro cursor inside
  exact .done (explains.manyAfter inside ⟨⟨[], Cursor.areWays.stay cursor⟩, .nil, by simp⟩)

theorem manyOnce (explains : Explains mends size p) : Explains mends size (Parser.manyOnce p) :=
  explains.seq explains.many

section Separated

variable {separator : Parser σ β} (comma : Explains mends size separator)
  (explains : Explains mends size p)
include comma explains

/-- The rounds of a list explain what they leave out, and the fault that ends them lies inside the
text. -/
theorem separatedAfter {cursor : Cursor σ} (inside : cursor.Inside size) (fuel : Nat)
    {before : Success σ Unit} (explained : before.Explained mends size cursor) :
    (Parser.separatedAfter separator p before fuel).1.Explained mends size cursor ∧
      ∀ fault ∈ (Parser.separatedAfter separator p before fuel).2, fault.Inside size := by
  induction fuel generalizing before with
  | zero => exact ⟨⟨explained.passes, explained.left, explained.hint⟩, nofun⟩
  | succ fuel ih =>
    obtain ⟨word, passes⟩ := explained.passes
    have sign := comma before.rest (inside.passes passes)
    unfold Parser.separatedAfter
    generalize separator before.rest = reply at sign ⊢
    cases sign with
    | failed left fault =>
      exact ⟨⟨explained.passes, explained.left.append left, explained.hint⟩,
        by rintro _ ⟨⟩; exact fault⟩
    | @done c sign =>
      have sign := sign.later passes
      obtain ⟨word', passes'⟩ := sign.passes
      have entry := explains c.rest (inside.passes passes')
      have left := explained.left.append sign.left
      have hint := Fault.inside_weigh explained.hint sign.hint
      dsimp only
      generalize p c.rest = reply at entry ⊢
      cases entry with
      | failed left' fault =>
        exact ⟨⟨explained.passes, left.append left', hint⟩, by rintro _ ⟨⟩; exact fault⟩
      | @done s entry =>
        have both : Success.Explained mends size cursor
            ⟨before.recorded ++ c.recorded ++ s.recorded, (),
              Fault.weigh (Fault.weigh before.hint c.hint) s.hint, s.rest⟩ :=
          ⟨(entry.later passes').passes, left.append entry.left, Fault.inside_weigh hint entry.hint⟩
        obtain ⟨further, ending⟩ := ih both
        exact ⟨⟨further.passes, further.left, further.hint⟩, ending⟩

theorem separated : Explains mends size (Parser.separated separator p) := by
  intro cursor inside
  have first := explains cursor inside
  unfold Parser.separated
  generalize p cursor = reply at first ⊢
  cases first with
  | failed left fault =>
    exact .done ⟨⟨[], Cursor.areWays.stay cursor⟩, left, by rintro _ ⟨⟩; exact fault⟩
  | @done s first =>
    have start : Success.Explained mends size cursor ⟨s.recorded, (), s.hint, s.rest⟩ :=
      ⟨first.passes, first.left, first.hint⟩
    obtain ⟨others, ending⟩ :=
      separatedAfter comma explains inside (s.rest.ahead.length + 1) start
    dsimp only
    generalize Parser.separatedAfter separator p ⟨s.recorded, (), s.hint, s.rest⟩
      (s.rest.ahead.length + 1) = rounds at others ending ⊢
    obtain ⟨word, passes⟩ := others.passes
    have trailing := comma rounds.1.rest (inside.passes passes)
    generalize separator rounds.1.rest = reply at trailing ⊢
    cases trailing with
    | failed _ fault =>
      refine .done ⟨others.passes, others.left,
        Fault.inside_weigh (Fault.inside_weigh others.hint ?_) ending⟩
      rintro _ ⟨⟩
      exact fault
    | done trailing =>
      exact .done ⟨(trailing.later passes).passes, others.left,
        Fault.inside_weigh (Fault.inside_weigh others.hint trailing.hint) ending⟩

end Separated

end Combined

end Explains

section Recovery

variable [DecidableEq σ] {size : Nat} {cursor : Cursor σ} {scan : Scan σ} {brackets : Brackets σ}

/-- The brackets that a search has found open, and its fault, lie inside the text. -/
structure Scan.Inside (size : Nat) (scan : Scan σ) : Prop where
  opened : ∀ span ∈ scan.opened, span.Inside size
  fault : ∀ fault ∈ scan.fault, fault.Inside size

omit [DecidableEq σ] in
theorem Scan.Inside.blame (found : scan.Inside size) (inside : cursor.Inside size) :
    (brackets.blame scan cursor).Inside size := by
  unfold Brackets.blame
  split
  · rename_i span opened _
    refine ⟨found.opened, ?_⟩
    rintro _ ⟨⟩
    refine ⟨inside.here, ?_⟩
    rintro _ _ ⟨⟩
    exact found.opened span (by simp [opened])
  · exact found

private theorem Scan.Inside.count (found : scan.Inside size) (inside : cursor.Inside size) (x : σ) :
    (brackets.count scan cursor x).Inside size := by
  unfold Brackets.count
  split
  · exact ⟨found.opened, found.fault⟩
  · split
    · dsimp only
      split
      · exact Scan.Inside.blame ⟨found.opened, found.fault⟩ inside
      · exact ⟨found.opened, found.fault⟩
    · exact found

/-- The search ends at a place behind, or with the fault of a bracket inside the text. -/
theorem Brackets.skip_inside (items : List (σ × Span)) (ahead : cursor.ahead = items)
    (inside : cursor.Inside size) (found : scan.Inside size) :
    (∀ place ∈ (brackets.skip items cursor scan).1, ∃ word, cursor.Passes word place) ∧
      ∀ fault ∈ (brackets.skip items cursor scan).2, fault.Inside size := by
  induction items generalizing cursor scan with
  | nil => exact ⟨by simp [Brackets.skip], (found.blame inside).fault⟩
  | cons x rest ih =>
    have step := Cursor.areWays.step ahead
    have ahead' : cursor.advance.ahead = rest := by simp only [Cursor.advance, ahead]
    have further {scan : Scan σ} (found : scan.Inside size) :
        (∀ place ∈ (brackets.skip rest cursor.advance scan).1, ∃ word, cursor.Passes word place) ∧
          ∀ fault ∈ (brackets.skip rest cursor.advance scan).2, fault.Inside size := by
      obtain ⟨places, faults⟩ := ih ahead' (inside.passes step) found
      refine ⟨fun place member => ?_, faults⟩
      obtain ⟨word, passes⟩ := places place member
      exact ⟨_, Cursor.areWays.trans step passes⟩
    unfold Brackets.skip
    split
    · refine further ⟨List.forall_mem_cons.mpr ⟨?_, found.opened⟩, found.fault⟩
      exact ⟨inside.ordered.valid x (by simp [ahead]), inside.bounded x (by simp [ahead])⟩
    · split
      · split
        · exact ⟨by simp, found.fault⟩
        · refine ⟨?_, found.fault⟩
          rintro _ ⟨⟩
          exact ⟨_, step⟩
        · rename_i opened
          exact further ⟨fun span member => found.opened span (by simp [opened, member]), found.fault⟩
      · split
        · exact ⟨by simp, found.fault⟩
        · exact further (found.count inside x.1)

/-- A parser that goes on behind what it cannot read leaves faults inside the text behind. -/
theorem Explains.recovering {p : Parser σ α} {fallback : α} (explains : Explains True size p) :
    Explains True size (Parser.recovering brackets fallback p) := by
  intro cursor inside
  have explained := explains cursor inside
  obtain ⟨places, faults⟩ := @Brackets.skip_inside _ _ size cursor {} brackets cursor.ahead rfl
    inside ⟨nofun, nofun⟩
  unfold Parser.recovering
  generalize p cursor = reply at explained ⊢
  cases explained with
  | done explained => exact .done explained
  | @failed recorded fault left fault_inside =>
    dsimp only
    have left' : Left True size (recorded ++ (brackets.skip cursor.ahead cursor {}).2.toList) :=
      left.append fun fault member => ⟨trivial, faults fault (Option.mem_toList.mp member)⟩
    split
    · exact .failed left' fault_inside
    · rename_i place found
      refine .done ⟨places place found, ?_, nofun⟩
      dsimp only
      split
      · refine left'.append fun fault member => ⟨trivial, ?_⟩
        rw [List.mem_singleton.mp member]
        exact fault_inside
      · exact left'

end Recovery

end Wabbit.Parsing
