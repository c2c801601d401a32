import Wabbit.Parsing.Recovery

/-!
The ways that parsers take through the input where they record no fault. A way is described by a list
of what was passed on it; what that list tells of the items is left open, so that the rules below
serve for the bare items and for items with their spans.
-/

namespace Wabbit.Parsing

variable {σ τ α β γ : Type}

/-- An ordered choice gives what its first alternative gives that does not fail, whatever the fault of
those before is. -/
theorem Parser.choiceAfter_eq_done {earlier : Option (Fault σ)} [DecidableEq σ]
    {ps : List (Parser σ α)} {cursor : Cursor σ} {s : Success σ α}
    (done : Parser.choiceAfter earlier ps cursor = .done s) :
    ∃ before p after, ps = before ++ p :: after ∧ p cursor = .done s ∧
      ∀ q ∈ before, ∃ recorded fault, q cursor = .failed recorded fault := by
  induction ps generalizing earlier with
  | nil => cases done
  | cons p rest ih =>
    unfold Parser.choiceAfter at done
    split at done
    · rename_i t read
      cases done
      exact ⟨[], p, rest, rfl, read, nofun⟩
    · rename_i recorded fault read
      obtain ⟨before, q, after, rfl, found, failing⟩ := ih done
      exact ⟨p :: before, q, after, rfl, found,
        List.forall_mem_cons.mpr ⟨⟨recorded, fault, read⟩, failing⟩⟩

theorem Parser.choice_eq_done [DecidableEq σ] {ps : List (Parser σ α)} {cursor : Cursor σ}
    {s : Success σ α} (done : Parser.choice ps cursor = .done s) :
    ∃ before p after, ps = before ++ p :: after ∧ p cursor = .done s ∧
      ∀ q ∈ before, ∃ recorded fault, q cursor = .failed recorded fault :=
  choiceAfter_eq_done done

/-- Ways from one place to another, each with the list of what was passed, one entry for an item. -/
structure AreWays (view : σ × Span → τ) (way : Cursor σ → List τ → Cursor σ → Prop) : Prop where
  stay : ∀ cursor, way cursor [] cursor
  step : ∀ {cursor item rest}, cursor.ahead = item :: rest →
    way cursor [view item] cursor.advance
  trans : ∀ {cursor word place word' place'}, way cursor word place → way place word' place' →
    way cursor (word ++ word') place'
  length : ∀ {cursor word place}, way cursor word place →
    cursor.ahead.length = word.length + place.ahead.length

/-- Whatever a parser reads without recording a fault, the way, the value and the place behind it
belong to the language. -/
def Takes (way : Cursor σ → List τ → Cursor σ → Prop) (p : Parser σ α)
    (language : List τ → α → Cursor σ → Prop) : Prop :=
  ∀ (cursor : Cursor σ) (s : Success σ α), p cursor = .done s → s.recorded = [] →
    ∃ word, way cursor word s.rest ∧ language word s.value s.rest

namespace Takes

section Basic

variable {way : Cursor σ → List τ → Cursor σ → Prop} {p : Parser σ α}
  {language : List τ → α → Cursor σ → Prop} {language' : List τ → β → Cursor σ → Prop}

theorem imp {wider : List τ → α → Cursor σ → Prop} (takes : Takes way p language)
    (implied : ∀ word a place, language word a place → wider word a place) : Takes way p wider := by
  intro cursor s done clean
  obtain ⟨word, passed, found⟩ := takes cursor s done clean
  exact ⟨word, passed, implied _ _ _ found⟩

theorem map {f : α → β} (takes : Takes way p language)
    (mapped : ∀ word a place, language word a place → language' word (f a) place) :
    Takes way (p.map f) language' := by
  intro cursor s done clean
  unfold Parser.map at done
  split at done
  · rename_i t read
    cases done
    obtain ⟨word, passed, found⟩ := takes cursor t read clean
    exact ⟨word, passed, mapped _ _ _ found⟩
  · cases done

theorem spanned {p : Parser σ (Span → α)} {made : List τ → (Span → α) → Cursor σ → Prop}
    (takes : Takes way p made) (joined : ∀ cursor word f place, way cursor word place →
      made word f place → language word (f (place.since cursor)) place) :
    Takes way p.spanned language := by
  intro cursor s done clean
  unfold Parser.spanned at done
  split at done
  · rename_i t read
    cases done
    obtain ⟨word, passed, found⟩ := takes cursor t read clean
    exact ⟨word, passed, joined _ _ _ _ passed found⟩
  · cases done

theorem refine {f : α → Except Refusal β} (takes : Takes way p language)
    (accepted : ∀ word a b place, language word a place → f a = .ok b → language' word b place) :
    Takes way (p.refine f) language' := by
  intro cursor s done clean
  unfold Parser.refine at done
  split at done
  · rename_i t read
    split at done
    · rename_i b kept
      cases done
      obtain ⟨word, passed, found⟩ := takes cursor t read clean
      exact ⟨word, passed, accepted _ _ _ _ found kept⟩
    · cases done
  · cases done

variable {view : σ × Span → τ} (ways : AreWays view way)
include ways

theorem item {f : σ → Option α}
    (taken : ∀ x span a place, f x = some a → language [view (x, span)] a place) :
    Takes way (Parser.item f) language := by
  intro cursor s done clean
  unfold Parser.item at done
  split at done
  · rename_i a read
    cases done
    obtain ⟨x, next, kept⟩ := Option.bind_eq_some_iff.mp read
    obtain ⟨⟨y, span⟩, first, same⟩ := Option.map_eq_some_iff.mp next
    obtain rfl : y = x := same
    obtain ⟨rest, ahead⟩ := List.head?_eq_some_iff.mp first
    exact ⟨[view (y, span)], ways.step ahead, taken y span a _ kept⟩
  · cases done

theorem satisfy (keep : σ → Bool) :
    Takes way (Parser.satisfy keep) fun word x _ =>
      keep x = true ∧ ∃ span, word = [view (x, span)] := by
  apply item ways
  intro x span a place kept
  by_cases passes : keep x = true
  · simp only [passes, ↓reduceIte, Option.some.injEq] at kept
    subst kept
    exact ⟨passes, span, rfl⟩
  · simp [passes] at kept

theorem finished : Takes way (Parser.finished : Parser σ Unit) fun word _ place =>
    word = [] ∧ place.ahead = [] := by
  intro cursor s done clean
  unfold Parser.finished at done
  split at done
  · rename_i none
    cases done
    exact ⟨[], ways.stay cursor, rfl, none⟩
  · cases done

omit ways in
theorem skipWhile (ways : AreWays view way) (keep : σ → Bool) (cursor : Cursor σ) :
    ∃ skipped : List (σ × Span), (∀ item ∈ skipped, keep item.1 = true) ∧
      way cursor (skipped.map view) (cursor.skipWhile keep) := by
  have go (items : List (σ × Span)) (cursor : Cursor σ) (same : cursor.ahead = items) :
      ∃ skipped : List (σ × Span), (∀ item ∈ skipped, keep item.1 = true) ∧
        way cursor (skipped.map view) (Cursor.skipWhile.go keep items cursor) := by
    induction items generalizing cursor with
    | nil => exact ⟨[], nofun, ways.stay cursor⟩
    | cons item rest ih =>
      unfold Cursor.skipWhile.go
      split
      · rename_i kept
        obtain ⟨skipped, all, passed⟩ := ih cursor.advance (by simp [Cursor.advance, same])
        exact ⟨item :: skipped, List.forall_mem_cons.mpr ⟨kept, all⟩,
          ways.trans (ways.step same) passed⟩
      · exact ⟨[], nofun, ways.stay cursor⟩
  exact go cursor.ahead cursor rfl

/-- Around what is read, blank items are passed. -/
theorem padded {blank : σ → Bool} {wider : List τ → α → Cursor σ → Prop}
    (takes : Takes way p language)
    (joined : ∀ (front back : List (σ × Span)) word a place place',
      (∀ item ∈ front, blank item.1 = true) → (∀ item ∈ back, blank item.1 = true) →
      language word a place → way place (back.map view) place' →
      wider (front.map view ++ word ++ back.map view) a place') :
    Takes way (p.padded blank) wider := by
  intro cursor s done clean
  unfold Parser.padded at done
  split at done
  · rename_i t read
    cases done
    obtain ⟨front, inFront, before⟩ := skipWhile ways blank cursor
    obtain ⟨word, passed, found⟩ := takes _ t read clean
    obtain ⟨back, behind, after⟩ := skipWhile ways blank t.rest
    exact ⟨front.map view ++ word ++ back.map view, ways.trans (ways.trans before passed) after,
      joined _ _ _ _ _ _ inFront behind found after⟩
  · cases done

theorem optional {language' : List τ → Option α → Cursor σ → Prop} (takes : Takes way p language)
    (there : ∀ word a place, language word a place → language' word (some a) place)
    (missing : ∀ place, language' [] none place) : Takes way (Parser.optional p) language' := by
  intro cursor s done clean
  unfold Parser.optional at done
  split at done
  · rename_i t read
    cases done
    obtain ⟨word, passed, found⟩ := takes cursor t read clean
    exact ⟨word, passed, there _ _ _ found⟩
  · cases done
    exact ⟨[], ways.stay cursor, missing _⟩

end Basic

section Combined

variable [DecidableEq σ] {view : σ × Span → τ} {way : Cursor σ → List τ → Cursor σ → Prop}
  {p : Parser σ α} {q : Parser σ β} {language : List τ → α → Cursor σ → Prop}
  {language' : List τ → β → Cursor σ → Prop}

theorem exactly (ways : AreWays view way) (items : List σ) :
    Takes way (Parser.exactly items) fun word _ _ =>
      ∃ read : List (σ × Span), read.map Prod.fst = items ∧ word = read.map view := by
  intro cursor s done clean
  induction items generalizing cursor with
  | nil =>
    cases done
    exact ⟨[], ways.stay cursor, [], rfl, rfl⟩
  | cons x more ih =>
    unfold Parser.exactly at done
    split at done
    · rename_i next
      obtain ⟨item, first, rfl⟩ := Option.map_eq_some_iff.mp next
      obtain ⟨rest, ahead⟩ := List.head?_eq_some_iff.mp first
      obtain ⟨_, passed, read, same, rfl⟩ := ih cursor.advance done
      exact ⟨_, ways.trans (ways.step ahead) passed, item :: read, by rw [List.map_cons, same], rfl⟩
    · cases done

theorem exactly_recorded (items : List σ) (cursor : Cursor σ) (s : Success σ Unit)
    (done : Parser.exactly items cursor = .done s) : s.recorded = [] := by
  induction items generalizing cursor with
  | nil =>
    cases done
    rfl
  | cons x more ih =>
    unfold Parser.exactly at done
    split at done
    · exact ih cursor.advance done
    · cases done

theorem just (ways : AreWays view way) (x : σ) :
    Takes way (Parser.just x) fun word _ _ => ∃ span, word = [view (x, span)] := by
  refine (exactly ways [x]).imp ?_
  rintro _ _ _ ⟨read, same, rfl⟩
  obtain ⟨⟨_, span⟩, rfl, rfl⟩ := List.map_eq_singleton_iff.mp same
  exact ⟨span, rfl⟩

theorem seq {f : α → β → γ} {both : List τ → γ → Cursor σ → Prop} (first : Takes way p language)
    (ways : AreWays view way) (second : Takes way q language')
    (joined : ∀ word a place word' b place', language word a place → way place word' place' →
      language' word' b place' → both (word ++ word') (f a b) place') :
    Takes way (Parser.seq f p q) both := by
  intro cursor s done clean
  unfold Parser.seq at done
  split at done
  · cases done
  · rename_i t read
    split at done
    · cases done
    · rename_i u read'
      cases done
      obtain ⟨clean, clean'⟩ := List.append_eq_nil_iff.mp clean
      obtain ⟨word, passed, found⟩ := first cursor t read clean
      obtain ⟨word', passed', found'⟩ := second t.rest u read' clean'
      exact ⟨word ++ word', ways.trans passed passed', joined _ _ _ _ _ _ found passed' found'⟩

theorem both (first : Takes way p language) (ways : AreWays view way)
    (second : Takes way q language') :
    Takes way (Parser.both p q) fun word pair place => ∃ left right middle, word = left ++ right ∧
      language left pair.1 middle ∧ way middle right place ∧ language' right pair.2 place :=
  first.seq ways second fun left _ middle right _ _ found passed found' =>
    ⟨left, right, middle, rfl, found, passed, found'⟩

theorem skipLeft (first : Takes way p language) (ways : AreWays view way)
    (second : Takes way q language') :
    Takes way (Parser.skipLeft p q) fun word b place => ∃ left right middle a,
      word = left ++ right ∧ language left a middle ∧ way middle right place ∧
        language' right b place :=
  first.seq ways second fun left a middle right _ _ found passed found' =>
    ⟨left, right, middle, a, rfl, found, passed, found'⟩

theorem skipRight (first : Takes way p language) (ways : AreWays view way)
    (second : Takes way q language') :
    Takes way (Parser.skipRight p q) fun word a place => ∃ left right middle b,
      word = left ++ right ∧ language left a middle ∧ way middle right place ∧
        language' right b place :=
  first.seq ways second fun left _ middle right b _ found passed found' =>
    ⟨left, right, middle, b, rfl, found, passed, found'⟩

theorem either {q : Parser σ α} (first : Takes way p language) (second : Takes way q language) :
    Takes way (Parser.either p q) language := by
  intro cursor s done clean
  unfold Parser.either at done
  split at done
  · rename_i t read
    cases done
    exact first cursor s read clean
  · split at done
    · rename_i t read
      cases done
      exact second cursor s read clean
    · cases done

theorem choice {ps : List (Parser σ α)} (each : ∀ p ∈ ps, Takes way p language) :
    Takes way (Parser.choice ps) language := by
  intro cursor s done clean
  obtain ⟨before, p, after, rfl, read, -⟩ := Parser.choice_eq_done done
  exact each p (by simp) cursor s read clean

section Repeated

/-- The rounds of a repetition keep what was recorded before them. -/
theorem clean_of_manyAfter {fuel : Nat} {before : Success σ Unit}
    (clean : (Parser.manyAfter p before fuel).recorded = []) : before.recorded = [] := by
  induction fuel generalizing before with
  | zero => exact clean
  | succ fuel ih =>
    unfold Parser.manyAfter at clean
    split at clean
    · exact clean
    · exact (List.append_eq_nil_iff.mp (ih clean)).1

variable {words : List τ → List α → Cursor σ → Prop} (ways : AreWays view way)
  (takes : Takes way p language)
  (more : ∀ word a place rest as place', language word a place → way place rest place' →
    words rest as place' → words (word ++ rest) (a :: as) place')
include ways takes more

/-- The rounds take ways one behind the other. They end where a further one fails, unless they run
out, which they do not if each of them passes an item. -/
theorem rounds {fuel : Nat} {before : Success σ Unit}
    (stop : ∀ place recorded fault, p place = .failed recorded fault → words [] [] place)
    (enough : (∀ place, words [] [] place) ∨
      (∀ word a place, language word a place → word ≠ []) ∧ before.rest.ahead.length < fuel)
    (clean : (Parser.manyAfter p before fuel).recorded = []) :
    ∃ word, way before.rest word (Parser.manyAfter p before fuel).rest ∧
      words word (Parser.manyAfter p before fuel).value (Parser.manyAfter p before fuel).rest := by
  induction fuel generalizing before with
  | zero =>
    obtain anywhere | ⟨-, short⟩ := enough
    · exact ⟨[], ways.stay _, anywhere _⟩
    · exact absurd short (Nat.not_lt_zero _)
  | succ fuel ih =>
    unfold Parser.manyAfter at clean ⊢
    split at clean
    · rename_i recorded fault read
      exact ⟨[], ways.stay _, stop _ _ _ read⟩
    · rename_i s read
      obtain ⟨-, s_clean⟩ := List.append_eq_nil_iff.mp (clean_of_manyAfter clean)
      obtain ⟨word, passed, found⟩ := takes before.rest s read s_clean
      have enough' : (∀ place, words [] [] place) ∨
          (∀ word a place, language word a place → word ≠ []) ∧ s.rest.ahead.length < fuel := by
        refine enough.imp_right fun ⟨consumes, short⟩ => ⟨consumes, ?_⟩
        have positive := List.length_pos_iff.mpr (consumes _ _ _ found)
        have shorter := ways.length passed
        omega
      obtain ⟨rest, passed', found'⟩ := ih enough' clean
      exact ⟨word ++ rest, ways.trans passed passed', more _ _ _ _ _ _ found passed' found'⟩

/-- The rounds of a repetition take ways one behind the other. -/
theorem many (none : ∀ place, words [] [] place) : Takes way (Parser.many p) words := by
  intro cursor s done clean
  cases done
  exact rounds ways takes more (fun place _ _ _ => none place) (.inl none) clean

/-- If every round passes an item, the repetition ends where another round fails. -/
theorem many_failing (consumes : ∀ word a place, language word a place → word ≠ [])
    (stop : ∀ place recorded fault, p place = .failed recorded fault → words [] [] place) :
    Takes way (Parser.many p) words := by
  intro cursor s done clean
  cases done
  exact rounds ways takes more stop (.inr ⟨consumes, Nat.lt_succ_self _⟩) clean

end Repeated

section Separated

variable {separator : Parser σ β} {others : List τ → List α → Prop} (ways : AreWays view way)
  {word_language : List τ → α → Prop} {comma : List τ → Prop}
  (takes : Takes way p fun word a _ => word_language word a)
  (separates : Takes way separator fun word _ _ => comma word)
  (stop : others [] []) (trailing : ∀ sign, comma sign → others sign [])
  (more : ∀ sign word a rest as, comma sign → word_language word a → others rest as →
    others (sign ++ (word ++ rest)) (a :: as))
include ways takes separates stop trailing more

/-- The rounds of a list take ways one behind the other, each behind a separator. Another separator
may follow them, so what they have read is a word of `others` with one behind it and without. -/
theorem separated_rounds {fuel : Nat} {before : Success σ Unit}
    (clean : (Parser.separatedAfter separator p before fuel).1.recorded = []) :
    before.recorded = [] ∧ ∃ word,
      way before.rest word (Parser.separatedAfter separator p before fuel).1.rest ∧
      ∀ ending, ending = [] ∨ comma ending →
        others (word ++ ending) (Parser.separatedAfter separator p before fuel).1.value := by
  have stopped (ending : List τ) (last : ending = [] ∨ comma ending) : others ([] ++ ending) [] := by
    obtain rfl | sign := last
    · exact stop
    · exact trailing ending sign
  induction fuel generalizing before with
  | zero => exact ⟨clean, [], ways.stay _, stopped⟩
  | succ fuel ih =>
    unfold Parser.separatedAfter at clean ⊢
    split at clean
    · exact ⟨(List.append_eq_nil_iff.mp clean).1, [], ways.stay _, stopped⟩
    · rename_i sign read
      dsimp only at clean ⊢
      split at clean
      · have before_clean := (List.append_eq_nil_iff.mp clean).1
        exact ⟨(List.append_eq_nil_iff.mp before_clean).1, [], ways.stay _, stopped⟩
      · rename_i s read'
        obtain ⟨before_clean, rest, passed, found⟩ := ih clean
        obtain ⟨before_clean, s_clean⟩ := List.append_eq_nil_iff.mp before_clean
        obtain ⟨before_clean, sign_clean⟩ := List.append_eq_nil_iff.mp before_clean
        obtain ⟨comma_word, comma_passed, sign_found⟩ := separates before.rest sign read sign_clean
        obtain ⟨word, passed', found'⟩ := takes sign.rest s read' s_clean
        refine ⟨before_clean, comma_word ++ (word ++ rest),
          ways.trans comma_passed (ways.trans passed' passed), ?_⟩
        intro ending last
        have joined := more _ _ _ _ _ sign_found found' (found ending last)
        simpa only [List.append_assoc] using joined

/-- A list takes ways of `language` with separators between them, and perhaps one behind the last. -/
theorem separated {words : List τ → List α → Prop}
    (silent : ∀ cursor s, separator cursor = .done s → s.recorded = [])
    (none : words [] [])
    (some : ∀ word a rest as, word_language word a → others rest as →
      words (word ++ rest) (a :: as)) :
    Takes way (Parser.separated separator p) fun word as _ => words word as := by
  intro cursor s done clean
  cases read : p cursor with
  | failed recorded fault =>
    simp only [Parser.separated, read, Reply.done.injEq] at done
    subst done
    exact ⟨[], ways.stay _, none⟩
  | done t =>
    simp only [Parser.separated, read, Reply.done.injEq] at done
    subst done
    obtain ⟨t_clean, rest, passed, found⟩ :=
      separated_rounds ways takes separates stop trailing more clean
    obtain ⟨word, passed', found'⟩ := takes cursor t read t_clean
    dsimp only
    generalize Parser.separatedAfter separator p ⟨t.recorded, (), t.hint, t.rest⟩
      (t.rest.ahead.length + 1) = rounds at passed found ⊢
    cases last : separator rounds.1.rest with
    | failed recorded fault =>
      refine ⟨word ++ rest, ways.trans passed' passed, some _ _ _ _ found' ?_⟩
      simpa using found [] (.inl rfl)
    | done sign =>
      obtain ⟨comma_word, comma_passed, sign_found⟩ := separates _ sign last (silent _ sign last)
      exact ⟨word ++ (rest ++ comma_word),
        ways.trans passed' (ways.trans passed comma_passed),
        some _ _ _ _ found' (found comma_word (.inr sign_found))⟩

end Separated

/-- What is recovered from is recorded. -/
theorem recovering {brackets : Brackets σ} {fallback : α} (takes : Takes way p language) :
    Takes way (Parser.recovering brackets fallback p) language := by
  intro cursor s done clean
  unfold Parser.recovering at done
  split at done
  · rename_i t read
    cases done
    exact takes cursor s read clean
  · dsimp only at done
    split at done
    · cases done
    · rename_i recorded _ _ _ _ _
      cases done
      -- A fault is left out only if an earlier one is recorded.
      cases nonempty : recorded ++ (brackets.skip cursor.ahead cursor {}).2.toList with
      | nil => simp [nonempty] at clean
      | cons first more =>
        simp only [nonempty] at clean
        split at clean <;> simp at clean

end Combined

end Takes

end Wabbit.Parsing
