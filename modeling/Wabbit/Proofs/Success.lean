import Mathlib.Data.List.Forall2
import Wabbit.Items
import Wabbit.Logged

/-!
What a computation that succeeds has gone through, and how the functions of a program correspond to
those it was made from.
-/

namespace Wabbit

variable {σ ε α β γ : Type}

theorem Success.bind_eq_ok {x : Except ε α} {f : α → Except ε β} {b : β} :
    (x >>= f) = .ok b ↔ ∃ a, x = .ok a ∧ f a = .ok b := by
  cases x with
  | error e => simp [bind, Except.bind]
  | ok a => simp [bind, Except.bind]

theorem Success.pure_eq_ok {a b : α} : (pure a : Except ε α) = .ok b ↔ b = a := by
  simp [pure, Except.pure, eq_comm]

theorem Success.mapError_eq_ok {ε' : Type} {x : Except ε α} {f : ε → ε'} {a : α} :
    x.mapError f = .ok a ↔ x = .ok a := by
  cases x <;> simp [Except.mapError]

theorem Success.toOption_eq_some {x : Except ε α} {a : α} : x.toOption = some a ↔ x = .ok a := by
  cases x <;> simp [Except.toOption]

theorem Success.run_bind_eq_ok {x : StateT σ (Except ε) α} {f : α → StateT σ (Except ε) β} {s : σ}
    {b : β × σ} :
    (x >>= f).run s = .ok b ↔ ∃ a t, x.run s = .ok (a, t) ∧ (f a).run t = .ok b := by
  rw [StateT.run_bind, bind_eq_ok]
  simp

theorem Success.result_bind_eq_ok {ω : Type} {x : Logged ω ε α} {f : α → Logged ω ε β} {b : β} :
    (x >>= f).result = .ok b ↔ ∃ a, x.result = .ok a ∧ (f a).result = .ok b := by
  rw [Logged.result_bind]
  exact bind_eq_ok

/-- A computation succeeds when its first step does, and the rest from there on. -/
theorem Success.run_bind {x : StateT σ (Except ε) α} {f : α → StateT σ (Except ε) β} {s t : σ}
    {a : α} (first : x.run s = .ok (a, t)) (second : ∃ b u, (f a).run t = .ok (b, u)) :
    ∃ b u, (x >>= f).run s = .ok (b, u) := by
  obtain ⟨b, u, done⟩ := second
  exact ⟨b, u, run_bind_eq_ok.mpr ⟨a, t, first, done⟩⟩

theorem Success.run_pure_eq_ok {a b : α} {s t : σ} :
    (pure a : StateT σ (Except ε) α).run s = .ok (b, t) ↔ a = b ∧ s = t := by
  rw [StateT.run_pure]
  simp [pure, Except.pure]

theorem Success.run_lift_eq_ok {x : Except ε α} {a : α} {s t : σ} :
    (liftM x : StateT σ (Except ε) α).run s = .ok (a, t) ↔ x = .ok a ∧ s = t := by
  cases x <;> simp [liftM, monadLift, MonadLift.monadLift, StateT.run, StateT.lift, bind, Except.bind,
    pure, Except.pure]

theorem Success.run'_eq_ok {x : StateT σ (Except ε) α} {a : α} {s : σ} :
    x.run' s = .ok a ↔ ∃ t, x.run s = .ok (a, t) := by
  unfold StateT.run' StateT.run
  rcases x s with e | ⟨b, t⟩
  · simp [Functor.map, Except.map]
  · simp [Functor.map, Except.map]

/-- Global variables correspond to themselves, and functions to related functions. -/
inductive Item.Related (related : FunDef β → FunDef γ → Prop) : Item β → Item γ → Prop where
  | global (symbol : Ast.Symbol) : Related related (.global symbol) (.global symbol)
  | function {f : FunDef β} {g : FunDef γ} (same : related f g) :
      Related related (.function f) (.function g)

/-- Programs correspond item by item. -/
abbrev Items.Related (related : FunDef β → FunDef γ → Prop) : Items β → Items γ → Prop :=
  List.Forall₂ (Item.Related related)

namespace Items

variable {related : FunDef β → FunDef γ → Prop} {program : Items β} {program' : Items γ}

@[simp]
theorem functions_global (symbol : Ast.Symbol) (rest : Items β) :
    functions (.global symbol :: rest) = rest.functions := rfl

@[simp]
theorem functions_function (f : FunDef β) (rest : Items β) :
    functions (.function f :: rest) = f :: rest.functions := rfl

theorem Related.imp {other : FunDef β → FunDef γ → Prop}
    (all : Items.Related related program program')
    (weaker : ∀ f ∈ program.functions, ∀ g ∈ program'.functions, related f g → other f g) :
    Items.Related other program program' := by
  induction all with
  | nil => exact .nil
  | cons same _ ih =>
    cases same with
    | global symbol => exact .cons (.global symbol) (ih weaker)
    | function same =>
      refine .cons (.function (weaker _ (by simp) _ (by simp) same)) (ih ?_)
      exact fun f left g right => weaker f (by simp [left]) g (by simp [right])

theorem Related.trans {δ : Type} {further : FunDef γ → FunDef δ → Prop} {program'' : Items δ}
    (first : Items.Related related program program')
    (second : Items.Related further program' program'') :
    Items.Related (fun f h => ∃ g, related f g ∧ further g h) program program'' := by
  induction first generalizing program'' with
  | nil =>
    cases second
    exact .nil
  | cons same _ ih =>
    cases second with
    | cons same' others =>
      cases same with
      | global symbol =>
        cases same'
        exact .cons (.global symbol) (ih others)
      | function same =>
        cases same' with
        | function same' => exact .cons (.function ⟨_, same, same'⟩) (ih others)

/-- Every function of the second program comes from a function of the first one. -/
theorem Related.exists_left (all : Items.Related related program program') {g : FunDef γ}
    (member : g ∈ program'.functions) : ∃ f ∈ program.functions, related f g := by
  induction all with
  | nil => cases member
  | cons same _ ih =>
    cases same with
    | global symbol => exact ih member
    | function same =>
      rcases List.mem_cons.mp member with rfl | member
      · exact ⟨_, by simp, same⟩
      · obtain ⟨f, inside, same⟩ := ih member
        exact ⟨f, by simp [inside], same⟩

/-- Every function of the first program has become a function of the second one. -/
theorem Related.exists_right (all : Items.Related related program program') {f : FunDef β}
    (member : f ∈ program.functions) : ∃ g ∈ program'.functions, related f g := by
  induction all with
  | nil => cases member
  | cons same _ ih =>
    cases same with
    | global symbol => exact ih member
    | function same =>
      rcases List.mem_cons.mp member with rfl | member
      · exact ⟨_, by simp, same⟩
      · obtain ⟨g, inside, same⟩ := ih member
        exact ⟨g, by simp [inside], same⟩

/-- Lists that related functions have in common make up one list for the whole program. -/
theorem Related.flatMap_functions (all : Items.Related related program program')
    (own : FunDef β → List α) (own' : FunDef γ → List α)
    (same : ∀ f g, related f g → own f = own' g) :
    program.functions.flatMap own = program'.functions.flatMap own' := by
  induction all with
  | nil => rfl
  | cons first _ ih =>
    cases first with
    | global symbol => exact ih
    | function first => simp [same _ _ first, ih]

section Threading

variable {f : FunDef β → StateT σ (Except ε) (FunDef γ)} {s t : σ}

theorem mapFunctionsM_global {symbol : Ast.Symbol}
    (done : (mapFunctionsM f (.global symbol :: program)).run s = .ok (program', t)) :
    ∃ others, (mapFunctionsM f program).run s = .ok (others, t) ∧
      program' = .global symbol :: others := by
  obtain ⟨others, u, recursive, done⟩ := Success.run_bind_eq_ok.mp done
  obtain ⟨rfl, rfl⟩ := Success.run_pure_eq_ok.mp done
  exact ⟨others, recursive, rfl⟩

theorem mapFunctionsM_function {g : FunDef β}
    (done : (mapFunctionsM f (.function g :: program)).run s = .ok (program', t)) :
    ∃ h others u, (f g).run s = .ok (h, u) ∧ (mapFunctionsM f program).run u = .ok (others, t) ∧
      program' = .function h :: others := by
  obtain ⟨h, u, own, done⟩ := Success.run_bind_eq_ok.mp done
  obtain ⟨others, v, recursive, done⟩ := Success.run_bind_eq_ok.mp done
  obtain ⟨rfl, rfl⟩ := Success.run_pure_eq_ok.mp done
  exact ⟨h, others, u, own, recursive, rfl⟩

/-- What is done to every function in turn is done to each of them in some state. -/
theorem related_mapFunctionsM (done : (mapFunctionsM f program).run s = .ok (program', t)) :
    Items.Related (fun g h => ∃ s t, (f g).run s = .ok (h, t)) program program' := by
  induction program generalizing program' s t with
  | nil =>
    obtain ⟨rfl, -⟩ := Success.run_pure_eq_ok.mp done
    exact .nil
  | cons item rest ih =>
    cases item with
    | global symbol =>
      obtain ⟨others, recursive, rfl⟩ := mapFunctionsM_global done
      exact .cons (.global symbol) (ih recursive)
    | function g =>
      obtain ⟨h, others, u, own, recursive, rfl⟩ := mapFunctionsM_function done
      exact .cons (.function ⟨s, u, own⟩) (ih recursive)

end Threading

theorem related_mapFunctionsM_ok {f : FunDef β → Except ε (FunDef γ)}
    (done : mapFunctionsM f program = .ok program') :
    Items.Related (fun g h => f g = .ok h) program program' := by
  induction program generalizing program' with
  | nil =>
    cases done
    exact .nil
  | cons item rest ih =>
    cases item with
    | global symbol =>
      obtain ⟨others, recursive, last⟩ := Success.bind_eq_ok.mp done
      cases last
      exact .cons (.global symbol) (ih recursive)
    | function g =>
      obtain ⟨h, own, done⟩ := Success.bind_eq_ok.mp done
      obtain ⟨others, recursive, last⟩ := Success.bind_eq_ok.mp done
      cases last
      exact .cons (.function own) (ih recursive)

theorem related_mapFunctions (f : FunDef β → FunDef γ) (program : Items β) :
    Items.Related (fun g h => h = f g) program (program.mapFunctions f) := by
  induction program with
  | nil => exact .nil
  | cons item rest ih =>
    cases item with
    | global symbol => exact .cons (.global symbol) ih
    | function g => exact .cons (.function rfl) ih

section Composition

variable {δ : Type} {m : Type → Type} [Monad m]

theorem mapFunctionsM_mapFunctions (f : FunDef β → FunDef γ) (g : FunDef γ → m (FunDef δ))
    (program : Items β) :
    (program.mapFunctions f).mapFunctionsM g = program.mapFunctionsM fun h => g (f h) := by
  induction program with
  | nil => rfl
  | cons item rest ih =>
    cases item with
    | global symbol => exact congrArg (· >>= _) ih
    | function h => exact congrArg (g (f h) >>= ·) (funext fun _ => congrArg (· >>= _) ih)

theorem map_mapFunctionsM [LawfulMonad m] (f : FunDef γ → FunDef δ) (g : FunDef β → m (FunDef γ))
    (program : Items β) :
    mapFunctions f <$> program.mapFunctionsM g = program.mapFunctionsM fun h => f <$> g h := by
  induction program with
  | nil => simp [mapFunctionsM, mapFunctions]
  | cons item rest ih =>
    cases item with
    | global symbol => simp [mapFunctionsM, mapFunctions, ← ih]
    | function h => simp [mapFunctionsM, mapFunctions, ← ih]

end Composition

/-- What succeeds for every function succeeds for all of them in turn. -/
theorem mapFunctionsM_of_forall {f : FunDef β → Except ε (FunDef γ)} {g : FunDef β → FunDef γ}
    {program : Items β} (each : ∀ h ∈ program.functions, f h = .ok (g h)) :
    program.mapFunctionsM f = .ok (program.mapFunctions g) := by
  induction program with
  | nil => rfl
  | cons item rest ih =>
    cases item with
    | global symbol =>
      rw [mapFunctionsM, ih each]
      rfl
    | function h =>
      obtain ⟨own, others⟩ := List.forall_mem_cons.mp each
      rw [mapFunctionsM, own, ih others]
      rfl

/-- Something can be done to every function in turn if it can be done to each in every state. -/
theorem mapFunctionsM_succeeds {f : FunDef β → StateT σ (Except ε) (FunDef γ)}
    (each : ∀ g ∈ program.functions, ∀ s, ∃ h t, (f g).run s = .ok (h, t)) (s : σ) :
    ∃ program' t, (mapFunctionsM f program).run s = .ok (program', t) := by
  induction program generalizing s with
  | nil => exact ⟨_, _, rfl⟩
  | cons item rest ih =>
    cases item with
    | global symbol =>
      obtain ⟨others, t, done⟩ := ih each s
      exact Success.run_bind done ⟨_, _, rfl⟩
    | function g =>
      obtain ⟨h, t, own⟩ := each g (by simp) s
      obtain ⟨others, u, done⟩ := ih (fun g member => each g (by simp [member])) t
      exact Success.run_bind own (Success.run_bind done ⟨_, _, rfl⟩)

end Items

end Wabbit
