import Wabbit.Proofs.Flow.Labels

/-!
Linked blocks do what the nested statements do that they were made from. Main statement: a function
finishes with the same result, store and trace, or does not finish, before and after its branches
and loops are dissolved into blocks.
-/

namespace Wabbit.Flow

open Stack

variable {w : World}

/-- Goes through at most the given number of blocks, from a label on, each of them on an empty operand
stack. Gives the returned value and the final state if that is enough. -/
def follow (w : World) (blocks : List Block) : Nat → Label → w.State → Option (Number × w.State)
  | 0, _, _ => none
  | steps + 1, label, s =>
    match blocks.find? (fun block => block.label = label) with
    | none => none
    | some block =>
      match runAlone w block.instrs s with
      | (.returned value, s) => some (value, s)
      | (exit, s) =>
        match exit.target? with
        | none => none
        | some target => follow w blocks steps target s

/-- Whether all of some blocks are found by their labels. -/
def Placed (blocks part : List Block) : Prop :=
  ∀ block ∈ part, blocks.find? (fun other => other.label = block.label) = some block

theorem Placed.of_nodup {blocks : List Block} (distinct : (blocks.map Block.label).Nodup) :
    Placed blocks blocks := by
  induction blocks with
  | nil => exact nofun
  | cons first rest ih =>
    obtain ⟨fresh, distinct⟩ := List.nodup_cons.mp distinct
    intro block member
    rcases List.mem_cons.mp member with rfl | member
    · simp
    · have other : first.label ≠ block.label := by
        intro same
        exact fresh (same ▸ List.mem_map_of_mem member)
      simpa [List.find?_cons, other] using ih distinct block member

theorem Placed.mono {blocks part part' : List Block} (placed : Placed blocks part)
    (inside : part' ⊆ part) : Placed blocks part' :=
  fun block member => placed block (inside member)

section Steps

variable {blocks : List Block} {block : Block} {s t : w.State} {result : Number × w.State}

private theorem follow_returned {value : Number}
    (found : blocks.find? (fun other => other.label = block.label) = some block)
    (ran : runAlone w block.instrs s = (.returned value, t)) :
    follow w blocks 1 block.label s = some (value, t) := by
  simp [follow, found, ran]

theorem follow_target {exit : Exit} {target : Label} {steps : Nat}
    (found : blocks.find? (fun other => other.label = block.label) = some block)
    (ran : runAlone w block.instrs s = (exit, t)) (leads : exit.target? = some target)
    (rest : follow w blocks steps target t = some result) :
    follow w blocks (steps + 1) block.label s = some result := by
  cases exit <;> simp_all [follow, Exit.target?]

/-- The first step on the way to a result. -/
theorem follow_inv {steps : Nat}
    (found : blocks.find? (fun other => other.label = block.label) = some block)
    (followed : follow w blocks steps block.label s = some result) :
    runAlone w block.instrs s = (.returned result.1, result.2) ∨
      ∃ before exit target t, before < steps ∧ runAlone w block.instrs s = (exit, t) ∧
        exit.target? = some target ∧ follow w blocks before target t = some result := by
  obtain ⟨value, final⟩ := result
  cases steps with
  | zero => cases followed
  | succ before =>
    simp only [follow, found] at followed
    rcases ran : runAlone w block.instrs s with ⟨exit, t⟩
    rw [ran] at followed
    cases exit with
    | returned v =>
      cases followed
      exact .inl rfl
    | jump target => exact .inr ⟨before, _, target, t, Nat.lt_succ_self _, rfl, rfl, followed⟩
    | branch holds target => exact .inr ⟨before, _, target, t, Nat.lt_succ_self _, rfl, rfl, followed⟩
    | _ => cases followed

end Steps

/-- What the test of a branch or loop does is decided by its condition. -/
theorem runAlone_test {condition : Code} {s t : w.State} {holds : Bool}
    (label ifTrue ifFalse : Label) (decided : condition.decide w s = some (holds, t)) :
    runAlone w (test label condition ifTrue ifFalse).instrs s =
      (.branch holds (if holds then ifTrue else ifFalse), t) := by
  unfold Code.decide at decided
  simp only [test, runAlone, run_append]
  split at decided
  · rename_i ran
    cases decided
    simp [ran, run, Instr.step, Instr.takes, Instr.perform]
  · cases decided

/-- A test that hands control on has decided its condition. -/
theorem decide_of_test {condition : Code} {s t : w.State} {exit : Exit} {label ifTrue ifFalse : Label}
    (plain : condition.isPlain = true)
    (ran : runAlone w (test label condition ifTrue ifFalse).instrs s = (exit, t)) :
    (exit.target? = none ∧ ∀ value, exit ≠ .returned value) ∨
      ∃ holds, condition.decide w s = some (holds, t) ∧
        exit.target? = some (if holds then ifTrue else ifFalse) := by
  have exits := run_plain (w := w) (by simpa [Code.isPlain] using plain) ⟨[], s⟩
  rcases inner : run w condition.instrs ⟨[], s⟩ with ⟨own, stack, u⟩
  rw [inner] at exits
  have ended (failed : own ≠ .next) : runAlone w (test label condition ifTrue ifFalse).instrs s =
      (own, u) := by
    simp only [test, runAlone, run_append, inner]
    cases own <;> simp_all
  rcases exits with rfl | rfl | rfl
  · cases stack with
    | nil =>
      simp only [test, runAlone, run_append, inner] at ran
      cases ran
      exact .inl ⟨rfl, by rintro _ ⟨⟩⟩
    | cons e below =>
      have decided : condition.decide w s = some (w.truth e, u) := by simp [Code.decide, inner]
      rw [runAlone_test label ifTrue ifFalse decided] at ran
      cases ran
      exact .inr ⟨w.truth e, decided, rfl⟩
  · cases (ended (by rintro ⟨⟩)).symm.trans ran
    exact .inl ⟨rfl, by rintro _ ⟨⟩⟩
  · cases (ended (by rintro ⟨⟩)).symm.trans ran
    exact .inl ⟨rfl, by rintro _ ⟨⟩⟩

/-- Where a closed leaf leads: on to the next label, or out of the function. -/
theorem runAlone_closeBlock {block : Block} (straight : isStraight block.instrs = true)
    (next : Label) (s : w.State) :
    (∃ t, runAlone w block.instrs s = (.next, t) ∧
      runAlone w (closeBlock block next).instrs s = (.jump next, t)) ∨
    (runAlone w (closeBlock block next).instrs s = runAlone w block.instrs s ∧
      (runAlone w block.instrs s).1.target? = none ∧ (runAlone w block.instrs s).1 ≠ .next) := by
  unfold closeBlock
  rcases isStraight_cases straight with ⟨running, plain⟩ | ⟨closed, front, kind, parts, plain⟩
  · have exits := run_plain plain (⟨[], s⟩ : Frame w)
    simp only [running, Bool.false_eq_true, ↓reduceIte, runAlone, run_append]
    rcases ended : run w block.instrs ⟨[], s⟩ with ⟨exit, stack, t⟩
    rw [ended] at exits
    rcases exits with rfl | rfl | rfl
    · exact .inl ⟨t, rfl, rfl⟩
    · exact .inr ⟨rfl, rfl, by rintro ⟨⟩⟩
    · exact .inr ⟨rfl, rfl, by rintro ⟨⟩⟩
  · have exits := run_returning plain kind (⟨[], s⟩ : Frame w)
    rw [← parts] at exits
    refine .inr ⟨?_, exits.2, exits.1⟩
    simp only [closed, ↓reduceIte]

/-- Proper statements in front of a label that are laid out in blocks, all of which are found. -/
structure Installed (blocks : List Block) (next : Label) (stmts : List (Nested Block))
    (linked : Linked) : Prop where
  laid : LaidOut next stmts linked
  placed : Placed blocks linked.blocks
  proper : Nested.allProper (fun block => isLeafCode block.instrs) stmts = true

namespace Installed

variable {blocks : List Block} {next : Label} {stmts : List (Nested Block)} {linked : Linked}

theorem leaf_inv {block : Block} (installed : Installed blocks next (.leaf block :: stmts) linked) :
    isStraight block.instrs = true ∧ ∃ rest, Installed blocks next stmts rest ∧
      linked.entry = block.label ∧ blocks.find? (fun other => other.label = block.label) =
        some (closeBlock block rest.entry) := by
  obtain ⟨laid, placed, proper⟩ := installed
  simp only [Nested.allProper, Nested.isProper, Bool.and_eq_true] at proper
  cases laid with
  | leaf _ others =>
    have found := placed _ (List.mem_cons_self ..)
    rw [label_closeBlock] at found
    refine ⟨isStraight_of_isLeafCode proper.1, _, ⟨others, placed.mono ?_, proper.2⟩, rfl, found⟩
    exact List.subset_cons_self ..

/-- The test of a branch leads to one of two arms, and both of them to what follows the branch. -/
theorem branch_inv {condition : Code} {ifTrue ifFalse : List (Nested Block)}
    (installed : Installed blocks next (.ifElse condition ifTrue ifFalse :: stmts) linked) :
    condition.isPlain = true ∧ ∃ rest, Installed blocks next stmts rest ∧ ∃ arm : Bool → Linked,
      Placed blocks [test linked.entry condition (arm true).entry (arm false).entry] ∧
      ∀ holds, Installed blocks rest.entry (if holds then ifTrue else ifFalse) (arm holds) := by
  obtain ⟨laid, placed, proper⟩ := installed
  simp only [Nested.allProper, Nested.isProper, Bool.and_eq_true] at proper
  obtain ⟨⟨⟨plain, proper₁⟩, proper₂⟩, others⟩ := proper
  cases laid with
  | @branch _ _ rest _ _ _ arm₁ arm₂ label laid first second =>
    have parts (part : List Block) (inside : part ⊆ arm₁.blocks ++ arm₂.blocks ++ rest.blocks) :
        Placed blocks part :=
      placed.mono fun block member => List.mem_cons_of_mem _ (inside member)
    refine ⟨plain, rest, ⟨laid, parts _ (by simp), others⟩, fun holds => if holds then arm₁ else arm₂,
      placed.mono (by simp), fun holds => ?_⟩
    cases holds with
    | false => exact ⟨second, parts _ (by simp), proper₂⟩
    | true => exact ⟨first, parts _ (by simp), proper₁⟩

/-- The test of a loop leads to its body, which leads back to it, or to what follows the loop. -/
theorem loop_inv {condition : Code} {body : List (Nested Block)}
    (installed : Installed blocks next (.loop condition body :: stmts) linked) :
    condition.isPlain = true ∧ ∃ rest inner, Installed blocks next stmts rest ∧
      Placed blocks [test linked.entry condition inner.entry rest.entry] ∧
      Installed blocks linked.entry body inner := by
  obtain ⟨laid, placed, proper⟩ := installed
  simp only [Nested.allProper, Nested.isProper, Bool.and_eq_true] at proper
  obtain ⟨⟨plain, proper⟩, others⟩ := proper
  cases laid with
  | @loop _ _ rest _ _ inner label laid round =>
    have parts (part : List Block) (inside : part ⊆ inner.blocks ++ rest.blocks) :
        Placed blocks part :=
      placed.mono fun block member => List.mem_cons_of_mem _ (inside member)
    exact ⟨plain, rest, inner, ⟨laid, parts _ (by simp), others⟩, placed.mono (by simp), round,
      parts _ (by simp), proper⟩

end Installed

/-- What is left to do for a result when statements in front of a label have come to their end. -/
def Continues (w : World) (blocks : List Block) (next : Label) (bound : Nat) (ending : Ending)
    (s : w.State) (result : Number × w.State) : Prop :=
  match ending with
  | .done => ∃ steps ≤ bound, follow w blocks steps next s = some result
  | .returned value => result = (value, s)

section Simulation

variable {blocks : List Block} {next : Label} {stmts : List (Nested Block)} {linked : Linked}
  {s t : w.State} {result : Number × w.State}

theorem ite_arm {α : Type} (arm : Bool → α) (holds : Bool) :
    (if holds then arm true else arm false) = arm holds := by
  cases holds <;> rfl

/-- A test that is found leads on as its condition decides. -/
theorem follow_test {condition : Code} {label ifTrue ifFalse : Label} {holds : Bool} {steps : Nat}
    (found : Placed blocks [test label condition ifTrue ifFalse])
    (decided : condition.decide w s = some (holds, t))
    (rest : follow w blocks steps (if holds then ifTrue else ifFalse) t = some result) :
    follow w blocks (steps + 1) label s = some result :=
  follow_target (found _ (by simp)) (runAlone_test label ifTrue ifFalse decided) rfl rest

/-- Blocks lead to every result to which the statements they were made from lead. -/
theorem Runs.follow {ending : Ending} {bound : Nat} (runs : Runs w Block.instrs stmts s ending t)
    (installed : Installed blocks next stmts linked)
    (rest : Continues w blocks next bound ending t result) :
    ∃ steps, Flow.follow w blocks steps linked.entry s = some result := by
  induction runs generalizing next linked bound with
  | nil =>
    obtain ⟨steps, -, rest⟩ := rest
    obtain ⟨laid, placed, -⟩ := installed
    cases laid with
    | nil => exact ⟨steps, rest⟩
    | pass label =>
      have found := placed ⟨label, [.goto next]⟩ (by simp)
      exact ⟨steps + 1, follow_target found rfl rfl rest⟩
  | leaf ran _ ih =>
    obtain ⟨straight, others, installed, entry, found⟩ := installed.leaf_inv
    obtain ⟨steps, rest⟩ := ih installed rest
    rw [← label_closeBlock _ others.entry] at entry found
    rcases runAlone_closeBlock straight others.entry _ with ⟨t, ran', jumped⟩ | ⟨-, -, other⟩
    · cases ran.symm.trans ran'
      exact ⟨steps + 1, entry ▸ follow_target found jumped rfl rest⟩
    · rw [ran] at other
      exact absurd rfl other
  | returns ran =>
    obtain ⟨straight, others, -, entry, found⟩ := installed.leaf_inv
    cases rest
    rw [← label_closeBlock _ others.entry] at entry found
    rcases runAlone_closeBlock straight others.entry _ with ⟨t, ran', -⟩ | ⟨same, -, -⟩
    · cases ran.symm.trans ran'
    · exact ⟨1, entry ▸ follow_returned found (same.trans ran)⟩
  | branch decided _ _ ih₁ ih =>
    obtain ⟨-, others, installed, arm, found, arms⟩ := installed.branch_inv
    obtain ⟨steps, rest⟩ := ih installed rest
    obtain ⟨steps, rest⟩ := ih₁ (arms _) ⟨steps, Nat.le_refl _, rest⟩
    exact ⟨steps + 1, follow_test found decided (by rwa [ite_arm fun holds => (arm holds).entry])⟩
  | branchReturns decided _ ih₁ =>
    obtain ⟨-, others, -, arm, found, arms⟩ := installed.branch_inv
    obtain ⟨steps, rest⟩ := @ih₁ _ _ 0 (arms _) rest
    exact ⟨steps + 1, follow_test found decided (by rwa [ite_arm fun holds => (arm holds).entry])⟩
  | leave decided _ ih =>
    obtain ⟨-, others, inner, installed, found, -⟩ := installed.loop_inv
    obtain ⟨steps, rest⟩ := ih installed rest
    exact ⟨steps + 1, follow_test found decided rest⟩
  | again decided _ _ ih₁ ih =>
    obtain ⟨-, others, inner, -, found, round⟩ := installed.loop_inv
    obtain ⟨steps, rest⟩ := ih installed rest
    obtain ⟨steps, rest⟩ := ih₁ round ⟨steps, Nat.le_refl _, rest⟩
    exact ⟨steps + 1, follow_test found decided rest⟩
  | loopReturns decided _ ih =>
    obtain ⟨-, others, inner, -, found, round⟩ := installed.loop_inv
    obtain ⟨steps, rest⟩ := @ih _ _ 0 round rest
    exact ⟨steps + 1, follow_test found decided rest⟩

/-- A test on the way to a result has decided its condition, and the rest of the way is shorter. -/
theorem follow_test_inv {condition : Code} {label ifTrue ifFalse : Label} {steps : Nat}
    (plain : condition.isPlain = true) (found : Placed blocks [test label condition ifTrue ifFalse])
    (followed : follow w blocks steps label s = some result) :
    ∃ holds t, ∃ before < steps, condition.decide w s = some (holds, t) ∧
      follow w blocks before (if holds then ifTrue else ifFalse) t = some result := by
  have first := follow_inv (found (test label condition ifTrue ifFalse) (by simp)) followed
  rcases first with ran | ⟨before, exit, target, t, shorter, ran, leads, rest⟩
  · rcases decide_of_test plain ran with ⟨-, other⟩ | ⟨holds, -, leads⟩
    · exact absurd rfl (other _)
    · cases leads
  · rcases decide_of_test plain ran with ⟨nowhere, -⟩ | ⟨holds, decided, leads'⟩
    · rw [nowhere] at leads
      cases leads
    · cases leads.symm.trans leads'
      exact ⟨holds, t, before, shorter, decided, rest⟩

theorem Continues.mono {bound bound' : Nat} {ending : Ending}
    (rest : Continues w blocks next bound ending t result) (less : bound ≤ bound') :
    Continues w blocks next bound' ending t result := by
  cases ending with
  | done =>
    obtain ⟨steps, few, rest⟩ := rest
    exact ⟨steps, Nat.le_trans few less, rest⟩
  | returned value => exact rest

/-- Whether statements lead to what remains to be done for a result, within some steps. -/
def Reaches (w : World) (blocks : List Block) (next : Label) (stmts : List (Nested Block))
    (s : w.State) (steps : Nat) (result : Number × w.State) : Prop :=
  ∃ ending t, Runs w Block.instrs stmts s ending t ∧ Continues w blocks next steps ending t result

/-- Whether all statements lead to a result to which their blocks lead in fewer steps. -/
def ReachesBefore (w : World) (blocks : List Block) (steps : Nat) (result : Number × w.State) : Prop :=
  ∀ before < steps, ∀ next stmts linked s, Installed blocks next stmts linked →
    follow w blocks before linked.entry s = some result → Reaches w blocks next stmts s before result

section Steps

variable {steps : Nat} (earlier : ReachesBefore w blocks steps result)
include earlier

/-- What follows an arm or a round takes fewer steps, if control comes there at all. -/
theorem ReachesBefore.behind {before : Nat} {ending : Ending}
    (rest : Continues w blocks linked.entry before ending s result) (less : before < steps)
    (installed : Installed blocks next stmts linked) :
    (∃ value, ending = .returned value ∧ result = (value, s)) ∨
      ending = .done ∧ Reaches w blocks next stmts s steps result := by
  cases ending with
  | returned value => exact .inl ⟨value, rfl, rest⟩
  | done =>
    obtain ⟨left, few, rest⟩ := rest
    have fewer : left < steps := Nat.lt_of_le_of_lt few less
    obtain ⟨ending, t, runs, rest⟩ := earlier left fewer _ _ _ _ installed rest
    exact .inr ⟨rfl, ending, t, runs, rest.mono (Nat.le_of_lt fewer)⟩

omit earlier in
theorem reaches_nil (installed : Installed blocks next [] linked)
    (followed : follow w blocks steps linked.entry s = some result) :
    Reaches w blocks next [] s steps result := by
  obtain ⟨laid, placed, -⟩ := installed
  cases laid with
  | nil => exact ⟨.done, s, .nil, steps, Nat.le_refl _, followed⟩
  | pass label =>
    have found := placed ⟨label, [.goto next]⟩ (by simp)
    rcases follow_inv found followed with ran | ⟨before, exit, target, t, less, ran, leads, rest⟩
    · cases ran
    · cases ran
      cases leads
      exact ⟨.done, s, .nil, before, Nat.le_of_lt less, rest⟩

private theorem reaches_leaf {block : Block}
    (installed : Installed blocks next (.leaf block :: stmts) linked)
    (followed : follow w blocks steps linked.entry s = some result) :
    Reaches w blocks next (.leaf block :: stmts) s steps result := by
  obtain ⟨straight, others, installed, entry, found⟩ := installed.leaf_inv
  rw [← label_closeBlock _ others.entry] at entry found
  rw [entry] at followed
  have closed := runAlone_closeBlock straight others.entry s
  rcases follow_inv found followed with ran | ⟨before, exit, target, t, less, ran, leads, rest⟩
  · rcases closed with ⟨t, -, jumped⟩ | ⟨same, -, -⟩
    · cases jumped.symm.trans ran
    · exact ⟨_, _, .returns (same.symm.trans ran), rfl⟩
  · rcases closed with ⟨t, passed, jumped⟩ | ⟨same, nowhere, -⟩
    · cases jumped.symm.trans ran
      cases leads
      obtain ⟨ending, u, runs, rest⟩ := earlier before less _ _ _ _ installed rest
      exact ⟨ending, u, .leaf passed runs, rest.mono (Nat.le_of_lt less)⟩
    · rw [← same, ran] at nowhere
      cases leads.symm.trans nowhere

private theorem reaches_ifElse {condition : Code} {ifTrue ifFalse : List (Nested Block)}
    (installed : Installed blocks next (.ifElse condition ifTrue ifFalse :: stmts) linked)
    (followed : follow w blocks steps linked.entry s = some result) :
    Reaches w blocks next (.ifElse condition ifTrue ifFalse :: stmts) s steps result := by
  obtain ⟨plain, others, installed, arm, found, arms⟩ := installed.branch_inv
  obtain ⟨holds, t, before, less, decided, rest⟩ := follow_test_inv plain found followed
  rw [ite_arm fun holds => (arm holds).entry] at rest
  obtain ⟨ending, u, runs, rest⟩ := earlier before less _ _ _ _ (arms holds) rest
  rcases earlier.behind rest less installed with ⟨value, rfl, same⟩ | ⟨rfl, ending, v, runs', rest⟩
  · exact ⟨_, u, .branchReturns decided runs, same⟩
  · exact ⟨ending, v, .branch decided runs runs', rest⟩

private theorem reaches_loop {condition : Code} {body : List (Nested Block)}
    (installed : Installed blocks next (.loop condition body :: stmts) linked)
    (followed : follow w blocks steps linked.entry s = some result) :
    Reaches w blocks next (.loop condition body :: stmts) s steps result := by
  have whole := installed
  obtain ⟨plain, others, inner, behind, found, round⟩ := installed.loop_inv
  obtain ⟨holds, t, before, less, decided, rest⟩ := follow_test_inv plain found followed
  cases holds with
  | false =>
    obtain ⟨ending, u, runs, rest⟩ := earlier before less _ _ _ _ behind rest
    exact ⟨ending, u, .leave decided runs, rest.mono (Nat.le_of_lt less)⟩
  | true =>
    obtain ⟨ending, u, runs, rest⟩ := earlier before less _ _ _ _ round rest
    rcases earlier.behind rest less whole with ⟨value, rfl, same⟩ | ⟨rfl, ending, v, runs', rest⟩
    · exact ⟨_, u, .loopReturns decided runs, same⟩
    · exact ⟨ending, v, .again decided runs runs', rest⟩

end Steps

/-- The statements that blocks were made from lead to every result to which the blocks lead. -/
theorem runs_of_follow {steps : Nat} (installed : Installed blocks next stmts linked)
    (followed : follow w blocks steps linked.entry s = some result) :
    Reaches w blocks next stmts s steps result := by
  -- Every statement has a block of its own, so that what follows it takes fewer steps.
  induction steps using Nat.strongRecOn generalizing next stmts linked s with
  | ind steps ih =>
    have earlier : ReachesBefore w blocks steps result :=
      fun before less _ _ _ _ installed followed => ih before less installed followed
    cases stmts with
    | nil => exact reaches_nil installed followed
    | cons stmt stmts =>
      cases stmt with
      | leaf block => exact reaches_leaf earlier installed followed
      | ifElse condition ifTrue ifFalse => exact reaches_ifElse earlier installed followed
      | loop condition body => exact reaches_loop earlier installed followed
      | function name parameters body => cases installed.laid

end Simulation

end Wabbit.Flow
