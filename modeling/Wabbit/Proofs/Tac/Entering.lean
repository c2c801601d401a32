import Mathlib.Data.List.Find
import Mathlib.Logic.Function.Basic
import Wabbit.Ast.Folding
import Wabbit.Proofs.Names.Distinct
import Wabbit.Proofs.Tac.Calling

/-!
The block that receives arguments, at work. Main statement: a function behind that block does with
its arguments just what it does without it where every parameter has room on the stack already, with
its argument in it.
-/

namespace Wabbit

open Ast (Symbol)
open Tac (Address)

/-! ### Arguments in the store -/

namespace World

/-- Each variable has room of its own: writing to one or making room for one leaves the others as
they are, and what was written is read again. -/
structure KeepsApart (w : World) : Prop where
  read_write (store : w.Store) (address : Address) (kind : Kind) (value : kind.Carrier) :
    w.read (w.write store address kind value) address kind = value
  read_write_other (store : w.Store) {address other : Address} (differ : other ≠ address)
    (kind kind' : Kind) (value : kind.Carrier) :
    w.read (w.write store address kind value) other kind' = w.read store other kind'
  read_reserve_other (store : w.Store) {name : String} {other : Address}
    (differ : other ≠ .slot name) (kind kind' : Kind) :
    w.read (w.reserve store name kind) other kind' = w.read store other kind'
  reserve_write (store : w.Store) {name other : String} (differ : other ≠ name)
    (kind kind' : Kind) (value : kind.Carrier) :
    w.reserve (w.write store (.slot name) kind value) other kind' =
      w.write (w.reserve store other kind') (.slot name) kind value

/-- The store with room for some parameters. -/
def allocate (w : World) (store : w.Store) (parameters : List Symbol) : w.Store :=
  parameters.foldl (fun store v => w.reserve store v.text v.kind) store

/-- The store in which some parameters hold some numbers. -/
def hold (w : World) (store : w.Store) : List Symbol → List Number → w.Store
  | v :: parameters, value :: values =>
    w.hold (w.write store (.slot v.text) value.kind value.value) parameters values
  | _, _ => store

variable {w : World} {parameters : List Symbol}

private theorem allocate_write (laws : w.KeepsApart) {name : String}
    (other : name ∉ parameters.map Symbol.text) (store : w.Store) (kind : Kind)
    (value : kind.Carrier) :
    w.allocate (w.write store (.slot name) kind value) parameters =
      w.write (w.allocate store parameters) (.slot name) kind value := by
  induction parameters generalizing store with
  | nil => rfl
  | cons v rest ih =>
    rw [List.map_cons, List.mem_cons, not_or] at other
    simp only [allocate, List.foldl_cons, laws.reserve_write store (Ne.symm other.1)]
    exact ih other.2 _

private theorem read_allocate_other (laws : w.KeepsApart) {address : Address}
    (other : ∀ v ∈ parameters, address ≠ .slot v.text) (store : w.Store) (kind : Kind) :
    w.read (w.allocate store parameters) address kind = w.read store address kind := by
  induction parameters generalizing store with
  | nil => rfl
  | cons v rest ih =>
    obtain ⟨own, others⟩ := List.forall_mem_cons.mp other
    calc w.read (w.allocate store (v :: rest)) address kind
        = w.read (w.reserve store v.text v.kind) address kind := ih others _
      _ = w.read store address kind := laws.read_reserve_other store own ..

theorem read_hold_other (laws : w.KeepsApart) {address : Address}
    (other : ∀ v ∈ parameters, address ≠ .slot v.text) (store : w.Store) (values : List Number)
    (kind : Kind) :
    w.read (w.hold store parameters values) address kind = w.read store address kind := by
  induction parameters generalizing store values with
  | nil => rfl
  | cons v rest ih =>
    obtain ⟨own, others⟩ := List.forall_mem_cons.mp other
    cases values with
    | nil => rfl
    | cons value values => rw [hold, ih others, laws.read_write_other store own]

/-- Parameters with different names hold their own numbers. -/
theorem read_hold (laws : w.KeepsApart) (distinct : (parameters.map Symbol.text).Nodup)
    (store : w.Store) {values : List Number} {held : Symbol × Number}
    (member : held ∈ parameters.zip values) :
    w.read (w.hold store parameters values) (.slot held.1.text) held.2.kind = held.2.value := by
  induction parameters generalizing store values with
  | nil => cases member
  | cons v rest ih =>
    obtain ⟨unique, distinct⟩ := List.nodup_cons.mp distinct
    cases values with
    | nil => cases member
    | cons value values =>
      rw [hold]
      rcases List.mem_cons.mp member with rfl | later
      · have other : ∀ u ∈ rest, Address.slot v.text ≠ .slot u.text := by
          intro u inside same
          exact unique (Address.slot.inj same ▸ List.mem_map_of_mem inside)
        rw [read_hold_other laws other, laws.read_write]
      · exact ih distinct _ later

end World

namespace Tac

/-! ### Arguments in registers -/

/-- Whether a register of that name is for an incoming argument. -/
def IsIncoming (name : String) : Prop := ".arg_".toList <+: name.toList

instance (name : String) : Decidable (IsIncoming name) :=
  inferInstanceAs (Decidable (_ <+: _))

private theorem isIncoming_argument (parameter : String) :
    IsIncoming (Register.argument parameter).name := by
  unfold IsIncoming
  rw [Register.name, String.toList_append]
  exact List.prefix_append ..

namespace Registers

variable {regs : Registers} {parameters : List Symbol}

theorem set_other {r other : Register} (differ : other ≠ r) (word : Word) :
    regs.set r word other = regs other := if_neg differ

/-- Parameters with different names name the registers of their own arguments. -/
theorem receive_of_mem (distinct : (parameters.map Symbol.text).Nodup) {arguments : List Number}
    {passed : Symbol × Number} (member : passed ∈ parameters.zip arguments) :
    regs.receive parameters arguments (.named passed.1.text) = .number passed.2 := by
  induction parameters generalizing arguments with
  | nil => cases member
  | cons parameter rest ih =>
    obtain ⟨unique, distinct⟩ := List.nodup_cons.mp distinct
    cases arguments with
    | nil => cases member
    | cons argument arguments =>
      rcases List.mem_cons.mp member with rfl | later
      · exact set_same ..
      · have inside := List.mem_map_of_mem (f := Symbol.text) (List.of_mem_zip later).1
        have differ : Register.named passed.1.text ≠ .named parameter.text :=
          fun same => unique (Register.named.inj same ▸ inside)
        rw [receive, set_other differ, ih distinct later]

/-- Receiving arguments changes no register but those of the parameters. -/
theorem agree_receive {hidden : String → Prop}
    (only : ∀ parameter ∈ parameters, hidden parameter.text) (arguments : List Number) :
    regs.Agree hidden (regs.receive parameters arguments) := by
  induction parameters generalizing arguments with
  | nil => exact fun _ _ => rfl
  | cons parameter rest ih =>
    obtain ⟨own, others⟩ := List.forall_mem_cons.mp only
    cases arguments with
    | nil => exact fun _ _ => rfl
    | cons argument arguments =>
      intro r seen
      have differ : r ≠ .named parameter.text := by
        rintro rfl
        exact seen own
      rw [receive, set_other differ, ih others arguments r seen]

end Registers

/-! ### The block that receives arguments -/

/-- The effects of storing arguments in the slots of their parameters. -/
def argumentStores : List Symbol → List Number → List Effect :=
  List.zipWith fun parameter argument => .store (.slot parameter.text) argument

/-- Copying an argument to the stack makes room for it and stores it there. -/
theorem run_spill {w : World} {regs : Registers} {parameter : Symbol} {argument : Number}
    (kind : argument.kind = parameter.kind)
    (arrives : regs (.named (Register.argument parameter.text).name) = .number argument)
    (s : w.State) :
    run w ((spill parameter).map Instr.byName) regs s =
      (.next, regs,
        (s.reserve parameter.text argument.kind).save (.slot parameter.text) argument) := by
  obtain ⟨text, _, storage⟩ := parameter
  obtain ⟨_, value⟩ := argument
  cases kind
  simp [spill, run, Instr.byName, Instr.step, Operand.byName, Operand.number?, Operand.word,
    arrives]

/-- Copying arguments to the stack makes room for all parameters and leaves in each its own
argument. -/
theorem run_spills {w : World} (laws : w.KeepsApart) {regs : Registers} {parameters : List Symbol}
    {arguments : List Number} (distinct : (parameters.map Symbol.text).Nodup)
    (kinds : arguments.map Number.kind = parameters.map Symbol.kind)
    (arrive : ∀ passed ∈ parameters.zip arguments,
      regs (.named (Register.argument passed.1.text).name) = .number passed.2) (s : w.State) :
    run w ((parameters.flatMap spill).map Instr.byName) regs s =
      (.next, regs, ⟨w.hold (w.allocate s.store parameters) parameters arguments,
        s.trace ++ argumentStores parameters arguments⟩) := by
  induction parameters generalizing arguments s with
  | nil => simp [run, World.allocate, World.hold, argumentStores]
  | cons parameter rest ih =>
    obtain ⟨unique, distinct⟩ := List.nodup_cons.mp distinct
    cases arguments with
    | nil => cases kinds
    | cons argument arguments =>
      obtain ⟨kind, kinds⟩ := List.cons.inj kinds
      obtain ⟨own, others⟩ := List.forall_mem_cons.mp arrive
      rw [List.flatMap_cons, List.map_append, run_append, run_spill kind own s]
      -- Room for the others can be made before this argument is stored, since none has its name.
      simp only [ih distinct kinds others, World.State.save, World.State.reserve, World.State.log,
        World.allocate_write laws unique]
      simp [World.allocate, World.hold, argumentStores, kind]

/-- What has to be true of a function for a block in front of it to receive its arguments. -/
structure IsEnterable (labels : Labels) (f : FunDef Block) : Prop where
  body : f.body ≠ []
  distinct : (f.parameters.map Symbol.text).Nodup
  /-- All labels are among those made so far, and none has the name of the block in front. -/
  labelled : ∀ block ∈ f.body, ∀ label ∈ block.label :: block.targets,
    label.id < labels.names.size ∧ labels.nameOf label ≠ Label.entryName
  unread : ∀ block ∈ f.body, ∀ i ∈ block.instrs, ∀ name ∈ i.reads, ¬ IsIncoming name

theorem withEntryBlock_of_cons {f : FunDef Block} {first : Block} {rest : List Block}
    (some : f.parameters ≠ []) (body : f.body = first :: rest) (labels : Labels) :
    f.withEntryBlock.run labels =
      (⟨f.name, f.parameters.map incoming, ⟨(labels.make Label.entryName).1,
        f.parameters.flatMap spill ++ [.jump first.label]⟩ :: f.body⟩,
        (labels.make Label.entryName).2) := by
  obtain ⟨name, parameters, body⟩ := f
  subst body
  cases parameters with
  | nil => exact absurd rfl some
  | cons parameter others => rfl

/-- A function keeps its name, and its parameters get the names of registers. -/
theorem withEntryBlock_header {f : FunDef Block} (some : f.body ≠ []) (labels : Labels) :
    (f.withEntryBlock.run labels).1.name = f.name ∧
      (f.withEntryBlock.run labels).1.parameters = f.parameters.map incoming := by
  obtain ⟨name, parameters, body⟩ := f
  cases parameters with
  | nil => exact ⟨rfl, rfl⟩
  | cons parameter others =>
    cases body with
    | nil => exact absurd rfl some
    | cons first rest => exact ⟨rfl, rfl⟩

theorem withEntryBlock_of_nil {f : FunDef Block} (none : f.parameters = []) (labels : Labels) :
    f.withEntryBlock.run labels = (f, labels) := by
  obtain ⟨name, parameters, body⟩ := f
  cases none
  rfl

/-- In front of other blocks, the block that receives arguments hides none of them. -/
theorem find?_entered {labels : Labels} {f : FunDef Block} (fits : IsEnterable labels f)
    {entry : Block} (own : entry.label = (labels.make Label.entryName).1) {label : Label}
    (known : label.id < labels.names.size ∧ labels.nameOf label ≠ Label.entryName) :
    let labels' := (labels.make Label.entryName).2
    ((entry :: f.body).find? fun block => labels'.nameOf block.label = labels'.nameOf label) =
      f.body.find? fun block => labels.nameOf block.label = labels.nameOf label := by
  have keeps := (Labels.Extends.make labels Label.entryName).keeps
  have other : ¬ Label.entryName = labels.nameOf label := Ne.symm known.2
  simp only [List.find?_cons, own, Labels.nameOf_make_self, keeps label known.1, other,
    decide_false]
  -- The new label is passed over, and all labels of the body keep their names.
  refine List.find?_congr fun block inside => ?_
  rw [keeps block.label (fits.labelled block inside _ List.mem_cons_self).1]

/-- The header of a function that passes its arguments through a block in front: the name stays, the
parameters are other ones of the same kinds, and no label changes its name. -/
structure KeepsHeader (labels labels' : Labels) (f entered : FunDef Block) : Prop where
  unchanged : f.parameters = [] → (entered, labels') = (f, labels)
  name : entered.name = f.name
  parameters : (entered.parameters.map fun p => (p.text, p.kind)) =
    (f.parameters.map fun p => (".arg_" ++ p.text, p.kind))
  extended : labels.Extends labels'

/-- A store in which every parameter has its argument, and which is another one in all other places. -/
structure HoldsArguments (w : World) (parameters : List Symbol) (arguments : List Number)
    (store start : w.Store) : Prop where
  held : ∀ passed ∈ parameters.zip arguments,
    w.read start (.slot passed.1.text) passed.2.kind = passed.2.value
  others : ∀ address, (∀ parameter ∈ parameters, address ≠ .slot parameter.text) →
    ∀ kind, w.read start address kind = w.read store address kind

/-- Behind at most one block more, a function that is given arguments runs as another one does from a
store where they are in their places already. -/
def RunsBehind (w : World) (labels labels' : Labels) (f entered : FunDef Block)
    (arguments : List Number) (regs : Registers) (store start : w.Store) : Prop :=
  ∃ front : List Block, front.length ≤ 1 ∧ entered.body = front ++ f.body ∧ ∀ steps,
    let ended := runFunction w labels f steps regs ⟨start, []⟩
    runFunction w labels' entered (steps + front.length)
        (regs.receive entered.parameters arguments) ⟨store, []⟩ =
      (ended.1, ended.2.after (argumentStores f.parameters arguments))

section Calls

variable {w : World} {labels : Labels} {f : FunDef Block} {arguments : List Number}

/-- The parameters of a function that is entered name the registers that its arguments arrive in. -/
theorem receive_incoming (fits : IsEnterable labels f) (regs : Registers) :
    ∀ passed ∈ f.parameters.zip arguments,
      regs.receive (f.parameters.map incoming) arguments
        (.named (Register.argument passed.1.text).name) = .number passed.2 := by
  intro passed member
  have distinct : ((f.parameters.map incoming).map Symbol.text).Nodup := by
    have renamed := fits.distinct.map argument_injective
    rwa [List.map_map] at renamed ⊢
  have arrives : (incoming passed.1, passed.2) ∈ (f.parameters.map incoming).zip arguments := by
    rw [List.zip_map_left]
    exact List.mem_map_of_mem (f := Prod.map incoming id) member
  exact Registers.receive_of_mem distinct arrives

/-- The block that receives arguments puts every argument in its place and leads on. -/
theorem run_entry (laws : w.KeepsApart) (fits : IsEnterable labels f)
    (kinds : arguments.map Number.kind = f.parameters.map Symbol.kind) (regs : Registers)
    (store : w.Store) (next : Label) :
    run w ((f.parameters.flatMap spill ++ [Instr.jump next]).map Instr.byName)
        (regs.receive (f.parameters.map incoming) arguments) ⟨store, []⟩ =
      (.jump next, regs.receive (f.parameters.map incoming) arguments,
        (⟨w.hold (w.allocate store f.parameters) f.parameters arguments, []⟩ : w.State).after
          (argumentStores f.parameters arguments)) := by
  rw [List.map_append, run_append,
    run_spills laws fits.distinct kinds (receive_incoming fits regs) ⟨store, []⟩]
  simp [run, Instr.byName, Instr.step, World.State.after]

/-- Behind the block that receives arguments a function runs as it does without it. -/
theorem follow_entered (fits : IsEnterable labels f) {entry : Block}
    (own : entry.label = (labels.make Label.entryName).1) {label : Label}
    (known : label.id < labels.names.size ∧ labels.nameOf label ≠ Label.entryName) (steps : Nat)
    (regs : Registers) (prior : List Effect) (s : w.State) :
    let ended := follow w labels f.body steps label regs s
    follow w (labels.make Label.entryName).2 (entry :: f.body) steps label
        (regs.receive (f.parameters.map incoming) arguments) (s.after prior) =
      (ended.1, ended.2.after prior) := by
  have received : ∀ parameter ∈ f.parameters.map incoming, IsIncoming parameter.text :=
    List.forall_mem_map.mpr fun parameter _ => isIncoming_argument parameter.text
  exact follow_alike (fun label known => find?_entered fits own known)
    (fun block member target leads =>
      fits.labelled block member target (List.mem_cons_of_mem _ leads))
    fits.unread known (Registers.agree_receive received arguments) steps

private theorem runFunction_entered (laws : w.KeepsApart) (fits : IsEnterable labels f)
    (some : f.parameters ≠ []) (kinds : arguments.map Number.kind = f.parameters.map Symbol.kind)
    (regs : Registers) (store : w.Store) (steps : Nat) :
    let entered := f.withEntryBlock.run labels
    let ended := runFunction w labels f steps regs
      ⟨w.hold (w.allocate store f.parameters) f.parameters arguments, []⟩
    runFunction w entered.2 entered.1 (steps + 1) (regs.receive entered.1.parameters arguments)
        ⟨store, []⟩ =
      (ended.1, ended.2.after (argumentStores f.parameters arguments)) := by
  obtain ⟨first, rest, body⟩ := List.exists_cons_of_ne_nil fits.body
  have known := fits.labelled first (body ▸ List.mem_cons_self) _ List.mem_cons_self
  simp only [withEntryBlock_of_cons some body]
  rw [runFunction_of_jump rfl (run_entry laws fits kinds regs store first.label),
    runFunction_of_cons body, follow_entered fits rfl known]

private theorem withEntryBlock_runs (laws : w.KeepsApart) (fits : IsEnterable labels f)
    (kinds : arguments.map Number.kind = f.parameters.map Symbol.kind) (regs : Registers)
    (store : w.Store) :
    let entered := f.withEntryBlock.run labels
    RunsBehind w labels entered.2 f entered.1 arguments regs store
      (w.hold (w.allocate store f.parameters) f.parameters arguments) := by
  by_cases none : f.parameters = []
  · refine ⟨[], Nat.zero_le 1, ?_, fun steps => ?_⟩
    · rw [withEntryBlock_of_nil none labels]
      rfl
    · simp only [withEntryBlock_of_nil none labels, none, Registers.receive, World.hold]
      rfl
  · obtain ⟨first, rest, body⟩ := List.exists_cons_of_ne_nil fits.body
    refine ⟨[⟨(labels.make Label.entryName).1, f.parameters.flatMap spill ++ [.jump first.label]⟩],
      Nat.le_refl 1, ?_, fun steps => runFunction_entered laws fits none kinds regs store steps⟩
    rw [withEntryBlock_of_cons none body labels]
    rfl

/-- A function behind the block that receives its arguments behaves as the function without it does
where every parameter has room on the stack already, with its argument in it. -/
theorem withEntryBlock_passes_arguments (laws : w.KeepsApart) (fits : IsEnterable labels f)
    (kinds : arguments.map Number.kind = f.parameters.map Symbol.kind) (regs : Registers)
    (store : w.Store) :
    let entered := f.withEntryBlock.run labels
    let start := w.hold (w.allocate store f.parameters) f.parameters arguments
    KeepsHeader labels entered.2 f entered.1 ∧
      HoldsArguments w f.parameters arguments store start ∧
      RunsBehind w labels entered.2 f entered.1 arguments regs store start := by
  intro entered start
  obtain ⟨name, parameters⟩ := withEntryBlock_header fits.body labels
  refine ⟨⟨(withEntryBlock_of_nil · labels), name, ?_, (withEntryBlock_entered f labels).1⟩,
    ⟨fun passed member => ?_, fun address other kind => ?_⟩,
    withEntryBlock_runs laws fits kinds regs store⟩
  · rw [parameters, List.map_map]
    rfl
  · exact World.read_hold laws fits.distinct _ member
  · rw [World.read_hold_other laws other, World.read_allocate_other laws other]

end Calls

end Tac

/-! ### A loop that counts a parameter down -/

namespace World

/-- A world in which each variable is a cell that holds a number of either kind. Calls do not come
back. -/
def ofCells : World where
  Store := Address → Number
  read store address kind := ((Word.number (store address)).as? kind).getD (zero kind)
  write store address kind value := Function.update store address ⟨kind, value⟩
  reserve store name kind := Function.update store (.slot name) ⟨kind, zero kind⟩
  arithmetic := Arithmetic.onBinary64
  comparison op x y :=
    let x := Float.ofBits x.bits
    let y := Float.ofBits y.bits
    match op with
    | .less => x < y
    | .lessEq => x ≤ y
    | .greater => y < x
    | .greaterEq => y ≤ x
    | .equal => x == y
    | .notEqual => x != y
  truncate x := x.toInt64.toInt32
  call _ _ _ _ := none

private theorem read_ofCells {store store' : ofCells.Store} {address : Address}
    (same : store' address = store address) (kind : Kind) :
    ofCells.read store' address kind = ofCells.read store address kind :=
  congrArg (fun n => ((Word.number n).as? kind).getD (zero kind)) same

private theorem ofCells_keepsApart : ofCells.KeepsApart where
  read_write store address kind value := by
    have own : ofCells.write store address kind value address = ⟨kind, value⟩ :=
      Function.update_self ..
    change ((Word.number (ofCells.write store address kind value address)).as? kind).getD _ = _
    rw [own, Word.as?_number, Option.getD_some]
  read_write_other store _ _ differ kind kind' value :=
    read_ofCells (Function.update_of_ne differ _ store) kind'
  read_reserve_other store _ _ differ kind kind' :=
    read_ofCells (Function.update_of_ne differ _ store) kind'
  reserve_write store name other differ kind kind' value := by
    have apart : Address.slot name ≠ .slot other := fun same => differ (Address.slot.inj same).symm
    exact Function.update_comm apart _ _ store

end World

namespace Tac

/-- Prints its second argument as many times as its first one says. -/
def repeated : FunDef Block :=
  ⟨⟨"repeated", .integer, .global⟩, [⟨"n", .integer, .stack⟩, ⟨"x", .float, .stack⟩],
    [⟨⟨0⟩, [.load (.numbered 0) .integer (.slot "n"),
        .binary (.numbered 1) (.compare .greater) .integer (.register (.numbered 0)) (.int 0),
        .branch (.register (.numbered 1)) ⟨1⟩ ⟨2⟩]⟩,
      ⟨⟨1⟩, [.load (.numbered 2) .float (.slot "x"), .print .float (.register (.numbered 2)),
        .load (.numbered 3) .integer (.slot "n"),
        .binary (.numbered 4) (.arithmetic .sub) .integer (.register (.numbered 3)) (.int 1),
        .store .integer (.register (.numbered 4)) (.slot "n"), .jump ⟨0⟩]⟩,
      ⟨⟨2⟩, [.ret .integer (.int 0)]⟩]⟩

private theorem isEnterable_repeated : IsEnterable ⟨#["L0", "L1", "L2"]⟩ repeated where
  body := by decide
  distinct := by decide
  labelled := by decide
  unread := by decide

theorem withEntryBlock_passes_arguments_repeated :
    let labels : Labels := ⟨#["L0", "L1", "L2"]⟩
    let entered := repeated.withEntryBlock.run labels
    let arguments : List Number := [⟨.integer, (3 : Int32)⟩, ⟨.float, Binary64.ofInt 2⟩]
    let regs : Registers := fun _ => .flag false
    let empty : World.ofCells.Store := fun _ => ⟨.integer, (0 : Int32)⟩
    let start := World.ofCells.hold (World.ofCells.allocate empty repeated.parameters)
      repeated.parameters arguments
    RunsBehind World.ofCells labels entered.2 repeated entered.1 arguments regs empty start := by
  intro labels entered arguments regs empty start
  have kinds : arguments.map Number.kind = repeated.parameters.map Symbol.kind := rfl
  obtain ⟨-, -, runs⟩ := withEntryBlock_passes_arguments World.ofCells_keepsApart
    isEnterable_repeated kinds regs empty
  exact runs

end Tac

end Wabbit
