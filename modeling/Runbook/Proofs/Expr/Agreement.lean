import Runbook.Expr.Eval
import Runbook.Proofs.Machine.Snapshots

namespace Runbook

/-- Variables with the same values, in whatever order. -/
def Env.Agrees (env env' : Env) : Prop := ∀ name, env.get? name = env'.get? name

namespace Env

variable {env env' : Env}

theorem Agrees.refl : env.Agrees env := fun _ => rfl

theorem Agrees.set (agrees : env.Agrees env') {name : String} (v : Value) :
    Env.Agrees (Record.set env name v) (Record.set env' name v) := by
  intro key
  rw [Record.get?_set, Record.get?_set, agrees key]

end Env

namespace Expr

variable {α β : Type}

def Blind (a : Evaluation α) : Prop :=
  ∀ env env' : Env, env.Agrees env' → (a.run.run env).1 = (a.run.run env').1 ∧
    (a.run.run env).2.Agrees (a.run.run env').2

theorem blind_pure {x : α} : Blind (pure x : Evaluation α) := fun _ _ agrees => ⟨rfl, agrees⟩

theorem blind_lift (r : Eval.Outcome α) : Blind (lift r) := fun _ _ agrees => ⟨rfl, agrees⟩

theorem blind_bind {a : Evaluation α} {f : α → Evaluation β} (first : Blind a)
    (rest : ∀ x, Blind (f x)) : Blind (a >>= f) := by
  intro env env' agrees
  obtain ⟨same, agrees⟩ := first env env' agrees
  simp only [ExceptT.run_bind, StateT.run_bind]
  rcases ran : a.run.run env with ⟨r, env₁⟩
  rcases ran' : a.run.run env' with ⟨r', env₁'⟩
  rw [ran, ran'] at same agrees
  cases same
  cases r with
  | error e => exact ⟨rfl, agrees⟩
  | ok x => exact rest x env₁ env₁' agrees

theorem blind_lookup (name : String) : Blind (lookup name) := by
  intro env env' agrees
  rw [run_lookup, run_lookup, agrees name]
  exact ⟨rfl, agrees⟩

theorem blind_store (name : String) (v : Value) : Blind (store name v) :=
  fun _ _ agrees => ⟨rfl, agrees.set v⟩

mutual

theorem blind_eval (e : Expr) : Blind e.eval := by
  cases e with
  | number _ | text _ | bool _ | pattern _ | null =>
    unfold eval
    exact blind_pure
  | name n =>
    unfold eval
    exact blind_lookup n
  | list items =>
    unfold eval
    exact blind_bind (blind_evalAll items) fun _ => blind_pure
  | assign target op value =>
    unfold eval
    have stores (new : Value) : Blind (do store target new; return new : Evaluation Value) :=
      blind_bind (blind_store target new) fun _ => blind_pure
    refine blind_bind (blind_eval value) fun v => ?_
    cases op with
    | set => exact blind_bind blind_pure stores
    | add | sub => exact blind_bind (blind_lookup target) fun _ => blind_bind (blind_lift _) stores
  | update target op before =>
    unfold eval
    refine blind_bind (blind_lookup target) fun old => blind_bind (blind_lift _) fun new => ?_
    exact blind_bind (blind_store target new) fun _ => blind_pure
  | index target i =>
    unfold eval
    exact blind_bind (blind_eval target) fun _ => blind_bind (blind_eval i) fun _ => blind_lift _
  | member target _ =>
    unfold eval
    exact blind_bind (blind_eval target) fun _ => blind_lift _
  | unary _ operand =>
    unfold eval
    exact blind_bind (blind_eval operand) fun _ => blind_lift _
  | binary op left right =>
    unfold eval
    refine blind_bind (blind_eval left) fun l => ?_
    split
    · split
      · exact blind_eval right
      · exact blind_pure
    · split
      · exact blind_pure
      · exact blind_eval right
    · exact blind_bind (blind_eval right) fun _ => blind_lift _

theorem blind_evalAll (es : List Expr) : Blind (evalAll es) := by
  cases es with
  | nil =>
    unfold evalAll
    exact blind_pure
  | cons e rest =>
    unfold evalAll
    exact blind_bind (blind_eval e) fun _ => blind_bind (blind_evalAll rest) fun _ => blind_pure

end

end Expr

theorem Statement.blind_evalFrom (first : Expr) (rest : List Expr) :
    Expr.Blind (Statement.evalFrom first rest) := by
  induction rest generalizing first with
  | nil =>
    unfold evalFrom
    exact Expr.blind_eval first
  | cons next rest ih =>
    unfold evalFrom
    exact Expr.blind_bind (Expr.blind_eval first) fun _ => ih next

theorem evaluate_agrees {patterns : Matcher} {text : String} {env env' : Env}
    (agrees : env.Agrees env') :
    (evaluate patterns text env).1 = (evaluate patterns text env').1 ∧
      (evaluate patterns text env).2.Agrees (evaluate patterns text env').2 := by
  unfold evaluate
  split
  · exact ⟨rfl, agrees⟩
  split
  · exact ⟨rfl, agrees⟩
  · rename_i s _
    obtain ⟨same, after⟩ := Statement.blind_evalFrom s.first s.rest env env' agrees
    change (s.eval.run.run env).1 = (s.eval.run.run env').1 at same
    change (s.eval.run.run env).2.Agrees (s.eval.run.run env').2 at after
    rcases ran : s.eval.run.run env with ⟨r, env₁⟩
    rcases ran' : s.eval.run.run env' with ⟨r', env₁'⟩
    rw [ran, ran'] at same after
    cases same
    cases r with
    | error e | ok v => exact ⟨rfl, after⟩

end Runbook
