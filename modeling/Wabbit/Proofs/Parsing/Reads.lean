import Wabbit.Parsing.Recovery

/-!
What parsers do with given items. A parser reads items up to a rest if it succeeds there and records
no fault, and it rejects items if it fails there and records no fault. Neither depends on the places
of the items. What an ordered choice reads is decided by the alternatives that are rejected, so the
rules for the two go together.
-/

namespace Wabbit.Parsing

variable {σ α β γ : Type}

namespace Cursor

/-- The items from the place on, without their spans. -/
def items (cursor : Cursor σ) : List σ := cursor.ahead.map Prod.fst

@[simp]
theorem peek_eq_head? (cursor : Cursor σ) : cursor.peek = cursor.items.head? := by
  simp [peek, items]

@[simp]
theorem items_advance (cursor : Cursor σ) : cursor.advance.items = cursor.items.tail := by
  unfold advance
  split
  · rename_i none
    simp [items, none]
  · rename_i item rest parts
    simp [items, parts]

theorem items_skipWhile (keep : σ → Bool) (cursor : Cursor σ) :
    (cursor.skipWhile keep).items = cursor.items.dropWhile keep := by
  have go (ahead : List (σ × Span)) (cursor : Cursor σ) (same : cursor.ahead = ahead) :
      (skipWhile.go keep ahead cursor).items = cursor.items.dropWhile keep := by
    induction ahead generalizing cursor with
    | nil => simp [skipWhile.go, items, same]
    | cons item rest ih =>
      have parts : cursor.items = item.1 :: rest.map Prod.fst := by simp [items, same]
      have next : cursor.advance.ahead = rest := by simp [advance, same]
      unfold skipWhile.go
      by_cases kept : keep item.1 = true
      · rw [if_pos kept, ih cursor.advance next, items_advance, parts]
        simp [kept]
      · rw [if_neg kept, parts]
        simp [kept]
  exact go cursor.ahead cursor rfl

theorem length_items (cursor : Cursor σ) : cursor.items.length = cursor.ahead.length := by
  simp [items]

end Cursor

/-- Wherever `items` lie ahead, the parser reads them up to `rest` without recording a fault, and
the value that it gives satisfies a predicate. -/
def Reads (p : Parser σ α) (items : List σ) (holds : α → Prop) (rest : List σ) : Prop :=
  ∀ cursor : Cursor σ, cursor.items = items →
    ∃ s, p cursor = .done s ∧ s.recorded = [] ∧ holds s.value ∧ s.rest.items = rest

/-- Wherever `items` lie ahead, the parser fails without recording a fault. -/
def Rejects (p : Parser σ α) (items : List σ) : Prop :=
  ∀ cursor : Cursor σ, cursor.items = items → ∃ fault, p cursor = .failed [] fault

section Basic

variable {p : Parser σ α} {items rest : List σ} {holds : α → Prop} {holds' : β → Prop}

theorem Reads.imp {weaker : α → Prop} (reads : Reads p items holds rest)
    (implied : ∀ a, holds a → weaker a) : Reads p items weaker rest := by
  intro cursor ahead
  obtain ⟨s, done, clean, value, left⟩ := reads cursor ahead
  exact ⟨s, done, clean, implied _ value, left⟩

theorem Reads.map {f : α → β} (reads : Reads p items holds rest)
    (mapped : ∀ a, holds a → holds' (f a)) : Reads (p.map f) items holds' rest := by
  intro cursor ahead
  obtain ⟨s, done, clean, value, left⟩ := reads cursor ahead
  exact ⟨_, by rw [Parser.map, done], clean, mapped _ value, left⟩

theorem Rejects.map (f : α → β) (rejects : Rejects p items) : Rejects (p.map f) items := by
  intro cursor ahead
  obtain ⟨fault, failed⟩ := rejects cursor ahead
  exact ⟨fault, by rw [Parser.map, failed]⟩

theorem Reads.spanned {p : Parser σ (Span → α)}
    (reads : Reads p items (fun f => ∀ span, holds (f span)) rest) :
    Reads p.spanned items holds rest := by
  intro cursor ahead
  obtain ⟨s, done, clean, value, left⟩ := reads cursor ahead
  exact ⟨_, by rw [Parser.spanned, done], clean, value _, left⟩

theorem Rejects.spanned {p : Parser σ (Span → α)} (rejects : Rejects p items) :
    Rejects p.spanned items := by
  intro cursor ahead
  obtain ⟨fault, failed⟩ := rejects cursor ahead
  exact ⟨fault, by rw [Parser.spanned, failed]⟩

theorem Reads.refine {f : α → Except Refusal β} (reads : Reads p items holds rest)
    (accepted : ∀ a, holds a → ∃ b, f a = .ok b ∧ holds' b) :
    Reads (p.refine f) items holds' rest := by
  intro cursor ahead
  obtain ⟨s, done, clean, value, left⟩ := reads cursor ahead
  obtain ⟨b, kept, value'⟩ := accepted _ value
  simp only [Parser.refine, done, kept]
  exact ⟨_, rfl, clean, value', left⟩

theorem Rejects.refine (f : α → Except Refusal β) (rejects : Rejects p items) :
    Rejects (p.refine f) items := by
  intro cursor ahead
  obtain ⟨fault, failed⟩ := rejects cursor ahead
  exact ⟨fault, by simp only [Parser.refine, failed]⟩

theorem Reads.item {f : σ → Option α} {x : σ} {a : α} (taken : f x = some a) (value : holds a) :
    Reads (Parser.item f) (x :: rest) holds rest := by
  intro cursor ahead
  have next : cursor.peek.bind f = some a := by simp [ahead, taken]
  exact ⟨⟨[], a, none, cursor.advance⟩, by simp only [Parser.item, next], rfl, value, by simp [ahead]⟩

theorem Rejects.item {f : σ → Option α} (refused : ∀ x ∈ items.head?, f x = none) :
    Rejects (Parser.item f) items := by
  intro cursor ahead
  have next : cursor.peek.bind f = none := by
    rw [Cursor.peek_eq_head?, ahead, Option.bind_eq_none_iff]
    exact refused
  exact ⟨cursor.unexpected [], by simp only [Parser.item, next]⟩

theorem Reads.satisfy {keep : σ → Bool} {x : σ} (kept : keep x = true) :
    Reads (Parser.satisfy keep) (x :: rest) (· = x) rest :=
  item (if_pos kept) rfl

theorem Rejects.satisfy {keep : σ → Bool} (refused : ∀ x ∈ items.head?, keep x = false) :
    Rejects (Parser.satisfy keep) items := by
  apply item
  intro x first
  simp [refused x first]

theorem Reads.finished : Reads (Parser.finished : Parser σ Unit) [] (fun _ => True) [] := by
  intro cursor ahead
  have done : cursor.ahead = [] := by simpa [Cursor.items] using ahead
  simp only [Parser.finished, done]
  exact ⟨_, rfl, rfl, trivial, ahead⟩

theorem Reads.padded {blank : σ → Bool} (reads : Reads p (items.dropWhile blank) holds rest) :
    Reads (p.padded blank) items holds (rest.dropWhile blank) := by
  intro cursor ahead
  obtain ⟨s, done, clean, value, left⟩ := reads (cursor.skipWhile blank) (by
    rw [Cursor.items_skipWhile, ahead])
  simp only [Parser.padded, done]
  refine ⟨_, rfl, clean, value, ?_⟩
  rw [Cursor.items_skipWhile, left]

theorem Rejects.padded {blank : σ → Bool} (rejects : Rejects p (items.dropWhile blank)) :
    Rejects (p.padded blank) items := by
  intro cursor ahead
  obtain ⟨fault, failed⟩ := rejects (cursor.skipWhile blank) (by
    rw [Cursor.items_skipWhile, ahead])
  exact ⟨fault, by simp only [Parser.padded, failed]⟩

theorem Reads.optional (reads : Reads p items holds rest) :
    Reads (Parser.optional p) items (fun value => ∃ a, value = some a ∧ holds a) rest := by
  intro cursor ahead
  obtain ⟨s, done, clean, value, left⟩ := reads cursor ahead
  simp only [Parser.optional, done]
  exact ⟨_, rfl, clean, ⟨_, rfl, value⟩, left⟩

theorem Reads.optional_none (rejects : Rejects p items) :
    Reads (Parser.optional p) items (· = none) items := by
  intro cursor ahead
  obtain ⟨fault, failed⟩ := rejects cursor ahead
  simp only [Parser.optional, failed]
  exact ⟨_, rfl, rfl, rfl, ahead⟩

end Basic

section Combined

variable [DecidableEq σ] {p : Parser σ α} {q : Parser σ β} {items middle rest : List σ}
  {holds : α → Prop} {holds' : β → Prop}

theorem Reads.exactly (items : List σ) (rest : List σ) :
    Reads (Parser.exactly items) (items ++ rest) (fun _ => True) rest := by
  intro cursor ahead
  induction items generalizing cursor with
  | nil => exact ⟨⟨[], (), none, cursor⟩, rfl, rfl, trivial, ahead⟩
  | cons x more ih =>
    have next : cursor.peek = some x := by simp [ahead]
    unfold Parser.exactly
    rw [if_pos next]
    exact ih cursor.advance (by simp [ahead])

private theorem Rejects.exactly {x : σ} {more : List σ} (other : items.head? ≠ some x) :
    Rejects (Parser.exactly (x :: more)) items := by
  intro cursor ahead
  have next : cursor.peek ≠ some x := by simpa [ahead] using other
  exact ⟨cursor.unexpected [some x], by rw [Parser.exactly, if_neg next]⟩

theorem Reads.just (x : σ) (rest : List σ) : Reads (Parser.just x) (x :: rest) (fun _ => True) rest :=
  exactly [x] rest

theorem Rejects.just {x : σ} (other : items.head? ≠ some x) : Rejects (Parser.just x) items :=
  exactly other

theorem Reads.seq {f : α → β → γ} {both : γ → Prop} (first : Reads p items holds middle)
    (second : Reads q middle holds' rest) (joined : ∀ a b, holds a → holds' b → both (f a b)) :
    Reads (Parser.seq f p q) items both rest := by
  intro cursor ahead
  obtain ⟨s, done, clean, value, left⟩ := first cursor ahead
  obtain ⟨t, done', clean', value', left'⟩ := second s.rest left
  simp only [Parser.seq, done, done']
  exact ⟨_, rfl, by simp [clean, clean'], joined _ _ value value', left'⟩

theorem Rejects.seq_left (f : α → β → γ) (q : Parser σ β) (rejects : Rejects p items) :
    Rejects (Parser.seq f p q) items := by
  intro cursor ahead
  obtain ⟨fault, failed⟩ := rejects cursor ahead
  exact ⟨fault, by simp only [Parser.seq, failed]⟩

theorem Rejects.seq_right (f : α → β → γ) (first : Reads p items holds middle)
    (rejects : Rejects q middle) : Rejects (Parser.seq f p q) items := by
  intro cursor ahead
  obtain ⟨s, done, clean, value, left⟩ := first cursor ahead
  obtain ⟨fault, failed⟩ := rejects s.rest left
  simp only [Parser.seq, done, failed, clean, List.append_nil]
  exact ⟨_, rfl⟩

theorem Reads.both (first : Reads p items holds middle) (second : Reads q middle holds' rest) :
    Reads (Parser.both p q) items (fun pair => holds pair.1 ∧ holds' pair.2) rest :=
  first.seq second fun _ _ left right => ⟨left, right⟩

theorem Reads.skipLeft (first : Reads p items holds middle) (second : Reads q middle holds' rest) :
    Reads (Parser.skipLeft p q) items holds' rest :=
  first.seq second fun _ _ _ right => right

theorem Reads.skipRight (first : Reads p items holds middle) (second : Reads q middle holds' rest) :
    Reads (Parser.skipRight p q) items holds rest :=
  first.seq second fun _ _ left _ => left

theorem Rejects.both (q : Parser σ β) (rejects : Rejects p items) : Rejects (Parser.both p q) items :=
  rejects.seq_left Prod.mk q

theorem Rejects.skipLeft (q : Parser σ β) (rejects : Rejects p items) :
    Rejects (Parser.skipLeft p q) items :=
  rejects.seq_left (fun _ b => b) q

theorem Rejects.skipRight (q : Parser σ β) (rejects : Rejects p items) :
    Rejects (Parser.skipRight p q) items :=
  rejects.seq_left (fun a _ => a) q

theorem Rejects.between (q : Parser σ β) (r : Parser σ γ) (rejects : Rejects p items) :
    Rejects (Parser.between p q r) items :=
  (rejects.skipLeft r).skipRight q

theorem Reads.between {holds'' : γ → Prop} {r : Parser σ γ} {before behind : List σ}
    (first : Reads p items holds before) (inner : Reads r before holds'' behind)
    (second : Reads q behind holds' rest) : Reads (Parser.between p q r) items holds'' rest :=
  (first.skipLeft inner).skipRight second

theorem Reads.either_left (q : Parser σ α) (reads : Reads p items holds rest) :
    Reads (Parser.either p q) items holds rest := by
  intro cursor ahead
  obtain ⟨s, done, found⟩ := reads cursor ahead
  exact ⟨s, by simp only [Parser.either, done], found⟩

theorem Reads.either_right {q : Parser σ α} (rejects : Rejects p items)
    (reads : Reads q items holds rest) : Reads (Parser.either p q) items holds rest := by
  intro cursor ahead
  obtain ⟨fault, failed⟩ := rejects cursor ahead
  obtain ⟨s, done, found⟩ := reads cursor ahead
  exact ⟨s, by simp only [Parser.either, failed, done], found⟩

theorem Rejects.either {q : Parser σ α} (first : Rejects p items) (second : Rejects q items) :
    Rejects (Parser.either p q) items := by
  intro cursor ahead
  obtain ⟨fault, failed⟩ := first cursor ahead
  obtain ⟨fault', failed'⟩ := second cursor ahead
  simp only [Parser.either, failed, failed']
  exact ⟨_, rfl⟩

/-- Wherever `items` lie ahead, one of the alternatives reads them up to `rest`, whatever the fault
of earlier alternatives is. -/
def ReadsChoice (ps : List (Parser σ α)) (items : List σ) (holds : α → Prop) (rest : List σ) :
    Prop :=
  ∀ earlier : Option (Fault σ), Reads (Parser.choiceAfter earlier ps) items holds rest

theorem ReadsChoice.here {ps : List (Parser σ α)} (reads : Reads p items holds rest) :
    ReadsChoice (p :: ps) items holds rest := by
  intro earlier cursor ahead
  obtain ⟨s, done, found⟩ := reads cursor ahead
  exact ⟨s, by simp only [Parser.choiceAfter, done], found⟩

theorem ReadsChoice.next {ps : List (Parser σ α)} (rejects : Rejects p items)
    (further : ReadsChoice ps items holds rest) : ReadsChoice (p :: ps) items holds rest := by
  intro earlier cursor ahead
  obtain ⟨fault, failed⟩ := rejects cursor ahead
  obtain ⟨s, done, found⟩ := further (some (fault.after earlier)) cursor ahead
  exact ⟨s, by simp only [Parser.choiceAfter, failed, done], found⟩

theorem ReadsChoice.reads {ps : List (Parser σ α)} (choice : ReadsChoice ps items holds rest) :
    Reads (Parser.choice ps) items holds rest := choice none

theorem Rejects.choice {ps : List (Parser σ α)} (each : ∀ p ∈ ps, Rejects p items) :
    Rejects (Parser.choice ps) items := by
  have from_here (earlier : Option (Fault σ)) : Rejects (Parser.choiceAfter earlier ps) items := by
    intro cursor ahead
    induction ps generalizing earlier with
    | nil => exact ⟨_, rfl⟩
    | cons p rest ih =>
      obtain ⟨fault, failed⟩ := each p (by simp) cursor ahead
      obtain ⟨fault', failed'⟩ := ih (fun q member => each q (by simp [member]))
        (some (fault.after earlier))
      exact ⟨fault', by simp only [Parser.choiceAfter, failed, failed']⟩
  exact from_here none

theorem Reads.recovering {brackets : Brackets σ} {fallback : α} (reads : Reads p items holds rest) :
    Reads (Parser.recovering brackets fallback p) items holds rest := by
  intro cursor ahead
  obtain ⟨s, done, found⟩ := reads cursor ahead
  exact ⟨s, by simp only [Parser.recovering, done], found⟩

end Combined

section Many

variable [DecidableEq σ] {p : Parser σ α} {items middle rest : List σ}
  {holds : α → Prop} {holds' : List α → Prop}

/-- Wherever `items` lie ahead, the rounds of a repetition read them up to `rest`, if there are more
rounds than items. -/
def ReadsMany (p : Parser σ α) (items : List σ) (holds : List α → Prop) (rest : List σ) : Prop :=
  ∀ (before : Success σ Unit) (fuel : Nat), before.rest.items = items → items.length < fuel →
    let t := Parser.manyAfter p before fuel
    t.recorded = before.recorded ∧ holds t.value ∧ t.rest.items = rest

theorem ReadsMany.stop {holds : List α → Prop} (rejects : Rejects p items) (value : holds []) :
    ReadsMany p items holds items := by
  intro before fuel ahead enough
  obtain ⟨fuel, rfl⟩ := Nat.exists_eq_add_of_lt enough
  obtain ⟨fault, failed⟩ := rejects before.rest ahead
  simp only [Parser.manyAfter, failed]
  exact ⟨trivial, value, ahead⟩

theorem ReadsMany.more {holds'' : List α → Prop} (reads : Reads p items holds middle)
    (shorter : middle.length < items.length) (further : ReadsMany p middle holds' rest)
    (joined : ∀ a as, holds a → holds' as → holds'' (a :: as)) :
    ReadsMany p items holds'' rest := by
  intro before fuel ahead enough
  obtain ⟨fuel, rfl⟩ := Nat.exists_eq_add_of_lt enough
  obtain ⟨s, done, clean, value, left⟩ := reads before.rest ahead
  obtain ⟨recorded, values, left'⟩ := further
    ⟨before.recorded ++ s.recorded, (), Fault.weigh before.hint s.hint, s.rest⟩
    (items.length + fuel) left (by omega)
  simp only [Parser.manyAfter, done]
  refine ⟨?_, joined _ _ value values, left'⟩
  rw [recorded, clean, List.append_nil]

theorem ReadsMany.reads (many : ReadsMany p items holds' rest) :
    Reads (Parser.many p) items holds' rest := by
  intro cursor ahead
  obtain ⟨recorded, values, left⟩ := many ⟨[], (), none, cursor⟩ (cursor.ahead.length + 1) ahead (by
    rw [← ahead, Cursor.length_items]
    exact Nat.lt_succ_self _)
  exact ⟨_, rfl, recorded, values, left⟩

end Many

section Separated

variable [DecidableEq σ] {separator : Parser σ β} {p : Parser σ α} {items middle rest : List σ}
  {holds : α → Prop} {holds' : List α → Prop} {comma : β → Prop}

/-- Wherever `items` lie ahead, the rounds of a list behind its first item read them up to `rest`,
together with a last separator. -/
def ReadsOthers (separator : Parser σ β) (p : Parser σ α) (items : List σ) (holds : List α → Prop)
    (rest : List σ) : Prop :=
  ∀ (before : Success σ Unit) (fuel : Nat), before.rest.items = items → items.length < fuel →
    let t := (Parser.separatedAfter separator p before fuel).1
    t.recorded = before.recorded ∧ holds t.value ∧
      (Rejects separator t.rest.items ∧ t.rest.items = rest ∨
        Reads separator t.rest.items (fun _ => True) rest)

theorem ReadsOthers.stop {holds : List α → Prop} (rejects : Rejects separator items)
    (value : holds []) : ReadsOthers separator p items holds items := by
  intro before fuel ahead enough
  obtain ⟨fuel, rfl⟩ := Nat.exists_eq_add_of_lt enough
  obtain ⟨fault, failed⟩ := rejects before.rest ahead
  simp only [Parser.separatedAfter, failed, List.append_nil]
  exact ⟨trivial, value, .inl ⟨by rw [ahead]; exact rejects, ahead⟩⟩

theorem ReadsOthers.trailing {holds : List α → Prop} (reads : Reads separator items comma rest)
    (rejects : Rejects p rest) (value : holds []) : ReadsOthers separator p items holds rest := by
  intro before fuel ahead enough
  obtain ⟨fuel, rfl⟩ := Nat.exists_eq_add_of_lt enough
  obtain ⟨s, done, clean, -, left⟩ := reads before.rest ahead
  obtain ⟨fault, failed⟩ := rejects s.rest left
  simp only [Parser.separatedAfter, done, failed, clean, List.append_nil]
  refine ⟨trivial, value, .inr ?_⟩
  rw [ahead]
  exact reads.imp fun _ _ => trivial

theorem ReadsOthers.more {behind : List σ} {holds'' : List α → Prop}
    (separates : Reads separator items comma middle) (reads : Reads p middle holds behind)
    (shorter : behind.length < items.length) (further : ReadsOthers separator p behind holds' rest)
    (joined : ∀ a as, holds a → holds' as → holds'' (a :: as)) :
    ReadsOthers separator p items holds'' rest := by
  intro before fuel ahead enough
  obtain ⟨fuel, rfl⟩ := Nat.exists_eq_add_of_lt enough
  obtain ⟨s, done, clean, -, left⟩ := separates before.rest ahead
  obtain ⟨t, done', clean', value, left'⟩ := reads s.rest left
  obtain ⟨recorded, values, ending⟩ := further
    ⟨before.recorded ++ s.recorded ++ t.recorded, (),
      Fault.weigh (Fault.weigh before.hint s.hint) t.hint, t.rest⟩
    (items.length + fuel) left' (by omega)
  simp only [Parser.separatedAfter, done, done']
  refine ⟨?_, joined _ _ value values, ending⟩
  rw [recorded, clean, clean', List.append_nil, List.append_nil]

theorem Reads.separated {holds'' : List α → Prop} (reads : Reads p items holds middle)
    (others : ReadsOthers separator p middle holds' rest)
    (joined : ∀ a as, holds a → holds' as → holds'' (a :: as)) :
    Reads (Parser.separated separator p) items holds'' rest := by
  intro cursor ahead
  obtain ⟨s, done, clean, value, left⟩ := reads cursor ahead
  obtain ⟨recorded, values, ending⟩ := others ⟨s.recorded, (), s.hint, s.rest⟩
    (s.rest.ahead.length + 1) left (by
      rw [← left, Cursor.length_items]
      exact Nat.lt_succ_self _)
  -- The separator behind the last item is looked for once more, outside of the rounds.
  obtain ⟨rejects, same⟩ | comma := ending
  · obtain ⟨fault, failed⟩ := rejects _ rfl
    simp only [Parser.separated, done, failed]
    exact ⟨_, rfl, recorded.trans clean, joined _ _ value values, same⟩
  · obtain ⟨t, done', -, -, left'⟩ := comma _ rfl
    simp only [Parser.separated, done, done']
    exact ⟨_, rfl, recorded.trans clean, joined _ _ value values, left'⟩

theorem Reads.separated_none {holds : List α → Prop} (rejects : Rejects p items) (value : holds []) :
    Reads (Parser.separated separator p) items holds items := by
  intro cursor ahead
  obtain ⟨fault, failed⟩ := rejects cursor ahead
  simp only [Parser.separated, failed]
  exact ⟨_, rfl, rfl, value, ahead⟩

end Separated

end Wabbit.Parsing
