import Mathlib.Logic.Relation
import Runbook.Expr.Eval
import Runbook.Pattern.Standard
import Runbook.Proofs.Machine.Snapshots

namespace Runbook

open List

namespace Expr

mutual

/-- The variables that an expression assigns or updates, at any depth. -/
def targets : Expr → List String
  | .number _ | .text _ | .bool _ | .pattern _ | .null | .name _ => []
  | .list items => targetsAll items
  | .assign target _ value => target :: value.targets
  | .update target _ _ => [target]
  | .index target i => target.targets ++ i.targets
  | .member target _ => target.targets
  | .unary _ operand => operand.targets
  | .binary _ left right => left.targets ++ right.targets

def targetsAll : List Expr → List String
  | [] => []
  | e :: rest => e.targets ++ targetsAll rest

end

end Expr

def Statement.targets (s : Statement) : List String := Expr.targetsAll s.items

namespace Env

def Write (names : List String) (env env' : Env) : Prop :=
  ∃ name ∈ names, ∃ v, env' = env.set name v

abbrev Writes (names : List String) (env env' : Env) : Prop :=
  Relation.ReflTransGen (Write names) env env'

variable {written more : List String} {env env' : Env} {name : String}

theorem Writes.mono (writes : Writes written env env') (part : written ⊆ more) :
    Writes more env env' := by
  induction writes with
  | refl => exact .refl
  | tail _ write ih =>
    obtain ⟨name, member, v, rfl⟩ := write
    exact ih.tail ⟨name, part member, v, rfl⟩

theorem Writes.get? (writes : Writes written env env') (other : name ∉ written) :
    env'.get? name = env.get? name := by
  induction writes with
  | refl => rfl
  | tail _ write ih =>
    obtain ⟨target, member, v, rfl⟩ := write
    have different : target ≠ name := fun same => other (same ▸ member)
    rw [Record.get?_set, if_neg different, ih]

theorem names_set (env : Env) (v : Value) : env.names <+: (env.set name v).names := by
  induction env with
  | nil => exact nil_prefix
  | cons entry rest ih =>
    obtain ⟨first, old⟩ := entry
    unfold Record.set
    split
    · exact prefix_rfl
    · exact (prefix_cons_inj first).mpr ih

theorem Writes.names (writes : Writes written env env') : env.names <+: env'.names := by
  induction writes with
  | refl => exact prefix_rfl
  | tail _ write ih =>
    obtain ⟨target, _, v, rfl⟩ := write
    exact ih.trans (names_set _ v)

theorem Writes.eq (writes : Writes [] env env') : env' = env := by
  induction writes with
  | refl => rfl
  | tail _ write _ =>
    obtain ⟨_, member, _⟩ := write
    cases member

end Env

namespace Expr

variable {α β : Type} {names : List String} {a : Evaluation α}

def Writing (names : List String) (a : Evaluation α) : Prop :=
  ∀ env : Env, env.Writes names (a.run.run env).2

theorem writing_pure {x : α} : Writing names (pure x : Evaluation α) := fun _ => .refl

theorem writing_lift (r : Eval.Outcome α) : Writing names (lift r) := fun _ => .refl

theorem writing_bind {f : α → Evaluation β} (first : Writing names a)
    (rest : ∀ x, Writing names (f x)) : Writing names (a >>= f) := by
  intro env
  have out := first env
  simp only [ExceptT.run_bind, StateT.run_bind]
  rcases ran : a.run.run env with ⟨r, env₁⟩
  rw [ran] at out
  cases r with
  | error e => exact out
  | ok x => exact out.trans (rest x env₁)

theorem writing_lookup (name : String) : Writing names (lookup name) := by
  refine writing_bind (fun _ => .refl) fun env => ?_
  split
  · exact writing_pure
  · exact fun _ => .refl

theorem writing_store {name : String} (member : name ∈ names) (v : Value) :
    Writing names (store name v) :=
  fun _ => .single ⟨name, member, v, rfl⟩

theorem Writing.mono {more : List String} (writing : Writing names a) (part : names ⊆ more) :
    Writing more a := fun env => (writing env).mono part

mutual

theorem writing_eval (e : Expr) : Writing e.targets e.eval := by
  cases e with
  | number _ | text _ | bool _ | pattern _ | null =>
    unfold eval
    exact writing_pure
  | name n =>
    unfold eval
    exact writing_lookup n
  | list items =>
    unfold eval targets
    exact writing_bind (writing_evalAll items) fun _ => writing_pure
  | assign target op value =>
    unfold eval targets
    have inner := (writing_eval value).mono (subset_cons_self target _)
    have stores (new : Value) :
        Writing (target :: value.targets) (do store target new; return new) :=
      writing_bind (writing_store mem_cons_self new) fun _ => writing_pure
    refine writing_bind inner fun v => ?_
    cases op with
    | set => exact writing_bind writing_pure stores
    | add | sub =>
      exact writing_bind (writing_lookup target) fun _ => writing_bind (writing_lift _) stores
  | update target op before =>
    unfold eval targets
    refine writing_bind (writing_lookup target) fun old => writing_bind
      (writing_lift _) fun new => ?_
    exact writing_bind (writing_store mem_cons_self new) fun _ => writing_pure
  | index target i =>
    unfold eval targets
    have first := (writing_eval target).mono (subset_append_left _ i.targets)
    have second := (writing_eval i).mono (subset_append_right target.targets _)
    exact writing_bind first fun _ => writing_bind second fun _ => writing_lift _
  | member target _ =>
    unfold eval targets
    exact writing_bind (writing_eval target) fun _ => writing_lift _
  | unary _ operand =>
    unfold eval targets
    exact writing_bind (writing_eval operand) fun _ => writing_lift _
  | binary op left right =>
    unfold eval targets
    have second := (writing_eval right).mono (subset_append_right left.targets _)
    refine writing_bind ((writing_eval left).mono (subset_append_left _ _)) fun l => ?_
    split
    · split
      · exact second
      · exact writing_pure
    · split
      · exact writing_pure
      · exact second
    · exact writing_bind second fun _ => writing_lift _

theorem writing_evalAll (es : List Expr) : Writing (targetsAll es) (evalAll es) := by
  cases es with
  | nil =>
    unfold evalAll
    exact writing_pure
  | cons e rest =>
    unfold evalAll targetsAll
    have first := (writing_eval e).mono (subset_append_left _ (targetsAll rest))
    have others := (writing_evalAll rest).mono (subset_append_right e.targets _)
    exact writing_bind first fun _ => writing_bind others fun _ => writing_pure

end

end Expr

theorem Statement.writing_evalFrom (first : Expr) (rest : List Expr) :
    Expr.Writing (Expr.targetsAll (first :: rest)) (Statement.evalFrom first rest) := by
  induction rest generalizing first with
  | nil =>
    unfold evalFrom Expr.targetsAll
    exact (Expr.writing_eval first).mono (subset_append_left _ _)
  | cons next rest ih =>
    unfold evalFrom Expr.targetsAll
    have head := (Expr.writing_eval first).mono
      (subset_append_left _ (Expr.targetsAll (next :: rest)))
    exact Expr.writing_bind head fun _ => (ih next).mono (subset_append_right first.targets _)

theorem evaluate_writes {patterns : Matcher} {text : String} {env : Env} :
    (evaluate patterns text env).2 = env ∨ ∃ s, Statement.read patterns text = .ok s ∧
      env.Writes s.targets (evaluate patterns text env).2 := by
  unfold evaluate
  split
  · exact .inl rfl
  split
  · exact .inl rfl
  rename_i s named
  have read : Statement.read patterns text = .ok s := by
    unfold Statement.readNamed at named
    split at named <;> cases named
    assumption
  have writes : env.Writes s.targets (s.eval.run.run env).2 :=
    Statement.writing_evalFrom s.first s.rest env
  refine .inr ⟨s, read, ?_⟩
  split <;> simp_all

/-- Expressions write only what they name. -/
theorem evaluate_keeps_others (patterns : Matcher) (text : String) (env : Env) :
    (∀ name, (∀ s, Statement.read patterns text = .ok s → name ∉ s.targets) →
      (evaluate patterns text env).2.get? name = env.get? name) ∧
    env.names <+: (evaluate patterns text env).2.names ∧
    ((∀ s, Statement.read patterns text = .ok s → s.targets = []) →
      (evaluate patterns text env).2 = env) := by
  rcases evaluate_writes with same | ⟨s, read, writes⟩
  · rw [same]
    exact ⟨fun _ _ => rfl, prefix_rfl, fun _ => rfl⟩
  · refine ⟨fun name other => writes.get? (other s read), writes.names, fun none => ?_⟩
    rw [none s read] at writes
    exact writes.eq

theorem evaluate_keeps_others_failedItem : let text := "i = 1, [j = 2, k]"
    let env : Env := [("x", .number (.int 7))]
    (evaluate .standard text env).1.isOk = false ∧ (evaluate .standard text env).2.names =
    ["x", "i", "j"] ∧ (∀ s, Statement.read .standard text = .ok s → "x" ∉ s.targets) ∧
    (evaluate .standard text env).2.get? "x" = env.get? "x" := by
  intro text env
  have targets :
      (Statement.read .standard text).toOption.map Statement.targets = some ["i", "j"] := by
    decide +kernel
  have other : ∀ s, Statement.read .standard text = .ok s → "x" ∉ s.targets := by
    intro s read
    rw [read] at targets
    rw [Option.some.inj targets]
    decide
  exact ⟨by decide +kernel, by decide +kernel, other,
    (evaluate_keeps_others .standard text env).1 "x" other⟩

end Runbook
