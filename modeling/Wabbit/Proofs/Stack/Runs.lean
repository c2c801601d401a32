import Wabbit.Stack.Grouping

/-!
Grouping in two passes: first neighbouring straight statements are joined into runs, then every run
gets a label. Main statement: this makes the same blocks with the same labels as extending the last
block in place does, while statements are taken one after the other.
-/

namespace Wabbit

namespace Stack

theorem isTerminated_append_singleton (front : List Instr) (i : Instr) :
    isTerminated (front ++ [i]) = i.isTerminator := by
  simp [isTerminated]

theorem isTerminated_append {front : List Instr} (running : isTerminated front = false)
    (back : List Instr) :
    isTerminated (front ++ back) = isTerminated back := by
  cases back with
  | nil => simpa [isTerminated] using running
  | cons i rest => simp [isTerminated, List.getLast?_append, List.getLast?_cons]

/-! ### Runs -/

/-- Puts a straight statement in front of others, joined with the run that follows it unless it ends
its own. -/
def joinRun (instrs : Straight) : List (Nested Straight) → List (Nested Straight)
  | .leaf next :: rest =>
    if isTerminated instrs then .leaf instrs :: .leaf next :: rest
    else .leaf (instrs ++ next) :: rest
  | rest => .leaf instrs :: rest

private theorem joinRun_of_isTerminated {instrs : Straight} (ended : isTerminated instrs = true)
    (stmts : List (Nested Straight)) : joinRun instrs stmts = .leaf instrs :: stmts := by
  unfold joinRun
  split
  · exact if_pos ended
  · rfl

/-- All that putting a statement in front can do: it stands by itself, or makes up a run with the leaf
behind it if it does not end its own. -/
theorem joinRun_cases (instrs : Straight) (stmts : List (Nested Straight)) :
    joinRun instrs stmts = .leaf instrs :: stmts ∨
      isTerminated instrs = false ∧ ∃ next rest, stmts = .leaf next :: rest ∧
        joinRun instrs stmts = .leaf (instrs ++ next) :: rest := by
  by_cases ended : isTerminated instrs = true
  · exact .inl (joinRun_of_isTerminated ended stmts)
  · have running := Bool.eq_false_iff.mpr ended
    unfold joinRun
    split
    · rename_i next rest
      exact .inr ⟨running, next, rest, rfl, if_neg ended⟩
    · exact .inl rfl

/-- The instructions of the run that begins in front of some statements, and what follows it. -/
theorem exists_joinRun (instrs : Straight) (stmts : List (Nested Straight)) :
    ∃ run rest, joinRun instrs stmts = .leaf run :: rest := by
  rcases joinRun_cases instrs stmts with same | ⟨-, next, rest, -, same⟩
  · exact ⟨instrs, stmts, same⟩
  · exact ⟨instrs ++ next, rest, same⟩

/-- Of three neighbours, those in front may be joined first. -/
theorem joinRun_joinRun {first : Straight} (running : isTerminated first = false)
    (second : Straight) (stmts : List (Nested Straight)) :
    joinRun first (joinRun second stmts) = joinRun (first ++ second) stmts := by
  have ended := isTerminated_append running second
  cases stmts with
  | nil => simp [joinRun, running]
  | cons s rest =>
    cases s with
    | leaf third =>
      by_cases closed : isTerminated second = true
      · simp [joinRun, running, ended, closed]
      · simp [joinRun, running, ended, closed]
    | _ => simp [joinRun, running]

namespace Nested

mutual

/-- Joins the straight statements inside a statement into runs. -/
def joinRuns : Nested Straight → Nested Straight
  | leaf instrs => .leaf instrs
  | ifElse condition ifTrue ifFalse =>
    .ifElse condition (joinAllRuns ifTrue) (joinAllRuns ifFalse)
  | loop condition body => .loop condition (joinAllRuns body)
  | function name parameters body => .function name parameters (joinAllRuns body)

/-- Joins neighbouring straight statements into runs. -/
def joinAllRuns : List (Nested Straight) → List (Nested Straight)
  | [] => []
  | .leaf instrs :: rest => joinRun instrs (joinAllRuns rest)
  | s :: rest => s.joinRuns :: joinAllRuns rest

end

mutual

/-- Gives every run inside a statement a label, in the order of the text. -/
def label : Nested Straight → StateM Labelling (Nested Block)
  | leaf instrs => do
    let label ← modifyGet Labelling.fresh
    pure (.leaf ⟨label, instrs⟩)
  | ifElse condition ifTrue ifFalse => do
    let ifTrue ← labelAll ifTrue
    let ifFalse ← labelAll ifFalse
    pure (.ifElse condition ifTrue ifFalse)
  | loop condition body => do
    let body ← labelAll body
    pure (.loop condition body)
  | function name parameters body => do
    let body ← labelAll body
    pure (.function name parameters body)

/-- Gives every run of several statements a label. -/
def labelAll : List (Nested Straight) → StateM Labelling (List (Nested Block))
  | [] => pure []
  | s :: rest => do
    let s ← s.label
    let rest ← labelAll rest
    pure (s :: rest)

end

variable {α : Type}

/-- Induction over statements and all lists of statements inside them. -/
@[elab_as_elim]
theorem inductionAll {motive : List (Nested α) → Prop} (nil : motive [])
    (leaf : ∀ x rest, motive rest → motive (.leaf x :: rest))
    (ifElse : ∀ condition ifTrue ifFalse rest, motive ifTrue → motive ifFalse → motive rest →
      motive (.ifElse condition ifTrue ifFalse :: rest))
    (loop : ∀ condition body rest, motive body → motive rest →
      motive (.loop condition body :: rest))
    (function : ∀ name parameters body rest, motive body → motive rest →
      motive (.function name parameters body :: rest)) :
    (stmts : List (Nested α)) → motive stmts
  | [] => nil
  | .leaf x :: rest => leaf x rest (inductionAll nil leaf ifElse loop function rest)
  | .ifElse condition ifTrue ifFalse :: rest =>
    ifElse condition ifTrue ifFalse rest (inductionAll nil leaf ifElse loop function ifTrue)
      (inductionAll nil leaf ifElse loop function ifFalse)
      (inductionAll nil leaf ifElse loop function rest)
  | .loop condition body :: rest =>
    loop condition body rest (inductionAll nil leaf ifElse loop function body)
      (inductionAll nil leaf ifElse loop function rest)
  | .function name parameters body :: rest =>
    function name parameters body rest (inductionAll nil leaf ifElse loop function body)
      (inductionAll nil leaf ifElse loop function rest)

/-! ### Extending the last block in place -/

/-- Whether no block is open at the end of what is grouped so far. -/
def Settled (grouped : List (Nested Block)) : Prop :=
  ∀ block, grouped.getLast? = some (.leaf block) → isTerminated block.instrs = true

private theorem extend_settled {grouped : List (Nested Block)} (settled : Settled grouped)
    (instrs : Straight) : extend grouped instrs = extend.start grouped instrs := by
  unfold extend
  split
  · next block last => exact if_pos (settled block last)
  · rfl

private theorem extend_running {label : Label} {instrs : Straight}
    (running : isTerminated instrs = false)
    (front : List (Nested Block)) (more : Straight) :
    extend (front ++ [.leaf ⟨label, instrs⟩]) more =
      pure (front ++ [.leaf ⟨label, instrs ++ more⟩]) := by
  simp [extend, running]

private theorem settled_leaf {label : Label} {instrs : Straight} (ended : isTerminated instrs = true)
    (front : List (Nested Block)) : Settled (front ++ [.leaf ⟨label, instrs⟩]) := by
  intro block last
  rw [List.getLast?_concat] at last
  cases last
  exact ended

/-- Whether grouping some statements behind others that are grouped already amounts to joining them
into runs that get labels. A block that is open goes on with the first of these runs. -/
structure TwoPasses (stmts : List (Nested Straight)) : Prop where
  settled : ∀ grouped, Settled grouped →
    groupAll grouped stmts = (grouped ++ ·) <$> labelAll (joinAllRuns stmts)
  running : ∀ front label instrs run rest, isTerminated instrs = false →
    joinRun instrs (joinAllRuns stmts) = .leaf run :: rest →
    groupAll (front ++ [.leaf ⟨label, instrs⟩]) stmts =
      (front ++ .leaf ⟨label, run⟩ :: ·) <$> labelAll rest

theorem TwoPasses.inside {stmts : List (Nested Straight)} (own : TwoPasses stmts) :
    groupAll [] stmts = labelAll (joinAllRuns stmts) := by
  rw [own.settled [] nofun]
  exact id_map _

/-- Statements behind a block with the given instructions, which may be open or not. -/
theorem TwoPasses.behind {stmts : List (Nested Straight)} (own : TwoPasses stmts)
    {instrs run : Straight} {rest : List (Nested Straight)} {front : List (Nested Block)}
    (label : Label)
    (first : joinRun instrs (joinAllRuns stmts) = .leaf run :: rest) :
    groupAll (front ++ [.leaf ⟨label, instrs⟩]) stmts =
      (front ++ .leaf ⟨label, run⟩ :: ·) <$> labelAll rest := by
  by_cases ended : isTerminated instrs = true
  · rw [joinRun_of_isTerminated ended] at first
    cases first
    rw [own.settled _ (settled_leaf ended front)]
    simp
  · exact own.running front label instrs run rest (Bool.eq_false_iff.mpr ended) first

private theorem TwoPasses.leaf {stmts : List (Nested Straight)} (own : TwoPasses stmts)
    (instrs : Straight) : TwoPasses (.leaf instrs :: stmts) where
  settled grouped settled := by
    obtain ⟨run, rest, first⟩ := exists_joinRun instrs (joinAllRuns stmts)
    rw [joinAllRuns, first, groupAll, group, extend_settled settled, extend.start]
    simp only [bind_assoc, pure_bind, own.behind _ first]
    simp [labelAll, label]
  running front label more run rest running first := by
    rw [joinAllRuns, joinRun_joinRun running] at first
    rw [groupAll, group, extend_running running, pure_bind, own.behind label first]

/-- A statement that is no leaf is grouped apart, and no instructions are added to it. -/
theorem TwoPasses.apart {s : Nested Straight} {stmts : List (Nested Straight)}
    (own : TwoPasses stmts) {β : Type} (inner : StateM Labelling β) (wrap : β → Nested Block)
    (noLeaf : ∀ b block, wrap b ≠ .leaf block)
    (grouping : ∀ grouped, group grouped s = (fun b => grouped ++ [wrap b]) <$> inner)
    (labelling : label s.joinRuns = wrap <$> inner)
    (joined : joinAllRuns (s :: stmts) = s.joinRuns :: joinAllRuns stmts)
    (starts : ∀ instrs, joinRun instrs (joinAllRuns (s :: stmts)) =
      .leaf instrs :: joinAllRuns (s :: stmts)) : TwoPasses (s :: stmts) := by
  have settled (grouped : List (Nested Block)) (b : β) : Settled (grouped ++ [wrap b]) := by
    intro block last
    rw [List.getLast?_concat] at last
    exact absurd (Option.some_inj.mp last) (noLeaf b block)
  have whole (grouped : List (Nested Block)) :
      groupAll grouped (s :: stmts) = (grouped ++ ·) <$> labelAll (joinAllRuns (s :: stmts)) := by
    rw [groupAll, grouping, joined, labelAll, labelling]
    simp only [bind_map_left, own.settled _ (settled _ _)]
    simp
  constructor
  · intro grouped _
    exact whole grouped
  · intro front label instrs run rest _ first
    rw [starts] at first
    cases first
    rw [whole]
    simp

private theorem twoPasses (stmts : List (Nested Straight)) : TwoPasses stmts := by
  induction stmts using inductionAll with
  | nil =>
    constructor
    · intro grouped _
      simp [groupAll, joinAllRuns, labelAll]
    · intro front label instrs run rest _ first
      cases first
      simp [groupAll, joinAllRuns, labelAll]
  | leaf instrs rest ih => exact ih.leaf instrs
  | ifElse condition ifTrue ifFalse rest ih₁ ih₂ ih =>
    let arms : StateM Labelling (List (Nested Block) × List (Nested Block)) := do
      let ifTrue ← labelAll (joinAllRuns ifTrue)
      let ifFalse ← labelAll (joinAllRuns ifFalse)
      pure (ifTrue, ifFalse)
    apply ih.apart arms fun arms => .ifElse condition arms.1 arms.2
    · nofun
    · intro grouped
      simp [arms, group, ih₁.inside, ih₂.inside]
    · simp [arms, joinRuns, label]
    · rfl
    · intro instrs
      rfl
  | loop condition body rest ih₁ ih =>
    apply ih.apart (labelAll (joinAllRuns body)) (.loop condition)
    · nofun
    · intro grouped
      simp [group, ih₁.inside]
    · simp [joinRuns, label]
    · rfl
    · intro instrs
      rfl
  | function name parameters body rest ih₁ ih =>
    apply ih.apart (labelAll (joinAllRuns body)) (.function name parameters)
    · nofun
    · intro grouped
      simp [group, ih₁.inside]
    · simp [joinRuns, label]
    · rfl
    · intro instrs
      rfl

end Nested

end Stack

open Stack in
/-- The blocks of a program are its runs with their labels. -/
theorem Items.groupBlocks_eq (program : Items (Nested Straight)) :
    program.groupBlocks =
      program.mapFunctionsM fun f => f.withBody <$> Nested.labelAll (Nested.joinAllRuns f.body) := by
  unfold groupBlocks
  simp only [(Nested.twoPasses _).inside, map_eq_pure_bind]

end Wabbit
