import Runbook.Proofs.Data.Loops
import Runbook.Proofs.Expr.Agreement

namespace Runbook

open Runbook.Action

/-- The file that a load command names, decoded. -/
structure DataFile (p : Program) (format : Format) (target : String) (vs : List Varset) : Prop where
  named : target.isEmpty = false
  decoded : ∃ text, p.files.text? (Path.locate p.base target) = .ok (some text) ∧
    Varset.ofText p.limits format (Path.locate p.base target) text = .ok vs

def Varset.verdict (v : Varset) (patterns : Matcher) (selector : String) (env : Env) :
    Except Mishap Value := (evaluate patterns selector (env.assign v)).1

/-- From a place on, the varset at `k` is the first one for which a selector holds, and up to there
all have the names of `first`. -/
structure Picks (patterns : Matcher) (selector : String) (env : Env) (first : Varset)
    (vs : List Varset) (start k : Nat) : Prop where
  onward : start ≤ k
  alike : ∀ j, start ≤ j → j ≤ k → ∃ v, vs[j]? = some v ∧ v.Alike first
  passed : ∀ j, start ≤ j → j < k → ∃ v x, vs[j]? = some v ∧ v.verdict patterns selector env =
    .ok x ∧ x.truthy = false
  taken : ∃ v x, vs[k]? = some v ∧ v.verdict patterns selector env = .ok x ∧ x.truthy = true

namespace Picks

variable {patterns : Matcher} {selector : String} {env : Env} {first v : Varset} {vs : List Varset}
  {start k : Nat} {x : Value}

theorem here (there : vs[k]? = some v) (alike : v.Alike first)
    (verdict : v.verdict patterns selector env = .ok x) (truthy : x.truthy = true) :
    Picks patterns selector env first vs k k where
  onward := Nat.le_refl k
  alike j low high := by
    cases Nat.le_antisymm high low
    exact ⟨v, there, alike⟩
  passed j low high := absurd high (Nat.not_lt.mpr low)
  taken := ⟨v, x, there, verdict, truthy⟩

theorem later (there : vs[start]? = some v) (alike : v.Alike first)
    (verdict : v.verdict patterns selector env = .ok x) (falsy : x.truthy = false)
    (picks : Picks patterns selector env first vs (start + 1) k) :
    Picks patterns selector env first vs start k where
  onward := Nat.le_of_succ_le picks.onward
  alike j low high := by
    rcases Nat.eq_or_lt_of_le low with rfl | above
    · exact ⟨v, there, alike⟩
    · exact picks.alike j above high
  passed j low high := by
    rcases Nat.eq_or_lt_of_le low with rfl | above
    · exact ⟨v, x, there, verdict, falsy⟩
    · exact picks.passed j above high
  taken := picks.taken

theorem cases (picks : Picks patterns selector env first vs start k) :
    ∃ v, vs[start]? = some v ∧ v.Alike first ∧
    ∃ x, v.verdict patterns selector env = .ok x ∧
      (x.truthy = true ∧ k = start ∨ x.truthy = false ∧ Picks patterns selector env first vs
        (start + 1) k) := by
  obtain ⟨v, there, alike⟩ := picks.alike start (Nat.le_refl start) picks.onward
  refine ⟨v, there, alike, ?_⟩
  rcases Nat.eq_or_lt_of_le picks.onward with rfl | above
  · obtain ⟨w, x, again, verdict, truthy⟩ := picks.taken
    cases there.symm.trans again
    exact ⟨x, verdict, .inl ⟨truthy, rfl⟩⟩
  · obtain ⟨w, x, again, verdict, falsy⟩ := picks.passed start (Nat.le_refl start) above
    cases there.symm.trans again
    refine ⟨x, verdict, .inr ⟨falsy, above, fun j low => picks.alike j (Nat.le_of_succ_le low),
      fun j low => picks.passed j (Nat.le_of_succ_le low), picks.taken⟩⟩

end Picks

def Varset.Covers (first : Varset) (base env : Env) : Prop :=
  ∀ name, name ∉ first.names → env.get? name = base.get? name

theorem Varset.Alike.refl {v : Varset} : v.Alike v := fun _ => Iff.rfl

namespace Varset.Covers

variable {first v : Varset} {base env : Env}

theorem agrees (covers : first.Covers base env) (alike : v.Alike first) (distinct : v.names.Nodup) :
    (env.assign v).Agrees (base.assign v) := by
  intro name
  rw [Env.assign, Env.assign, Record.get?_override distinct, Record.get?_override distinct]
  cases value : v.get? name with
  | some x => rfl
  | none => exact covers name fun mem => Record.get?_eq_none.mp value ((alike name).mpr mem)

theorem assign (covers : first.Covers base env) (alike : v.Alike first) (distinct : v.names.Nodup) :
    first.Covers base (env.assign v) := by
  intro name other
  rw [covers.agrees alike distinct name, Env.assign, Record.get?_override distinct,
    Record.get?_eq_none.mpr fun mem => other ((alike name).mp mem)]
  rfl

end Varset.Covers

section Seeking

variable {p : Program} {selector : String} {base : Env} {first v : Varset} {rest : List Varset}
  {m m' : Machine} {r : Reader} {x : Reply Bool}

theorem ran_takeVarset_bind {α : Type} {f : Reader → Action α} {k : Nat} {x : Reply α}
    (spans : Reader.Over first rest r) (cursor : r.cursor = some k)
    (there : (first :: rest)[k]? = some v) (ran : Ran (takeVarset r >>= f) m x m') :
    if v.Alike first then Ran (f { r with cursor := some (k + 1) })
      { m with vars := m.vars.assign v } x m'
    else ∃ e, x = .error e := by
  have given := Reader.next_at spans cursor there
  unfold takeVarset at ran
  split
  · rename_i alike
    rw [if_pos alike] at given
    rw [given] at ran
    exact ran
  · rename_i other
    rw [if_neg other] at given
    obtain ⟨e, refused, _⟩ := given
    rw [refused] at ran
    exact ⟨_, (Prod.mk.inj ran).1.symm⟩

section

variable (evaluator : p.evaluator = evaluate p.patterns)
  (quiet : ∀ env, (evaluate p.patterns selector env).2 = env)

include evaluator quiet

theorem ran_selector {x : Reply Value} (agrees : m.vars.Agrees (base.assign v))
    (ran : Ran (eval p selector) m x m') :
    m' = m ∧ ∀ y, x = .ok y ↔ v.verdict p.patterns selector base = .ok y := by
  obtain ⟨after, value, _⟩ := ran_eval ran
  rw [evaluator] at after value
  rw [quiet] at after
  rw [(evaluate_agrees agrees).1] at value
  exact ⟨after, value⟩

theorem ran_selectorHolds (agrees : m.vars.Agrees (base.assign v))
    (ran : Ran (holds p selector) m x m') :
    m' = m ∧ ∀ b, x = .ok b ↔ ∃ y, v.verdict p.patterns selector base = .ok y ∧ y.truthy = b := by
  rcases ran_bind ran with ⟨e, rfl, failed⟩ | ⟨y, m₁, given, further⟩
  · obtain ⟨same, value⟩ := ran_selector evaluator quiet agrees failed
    refine ⟨same, fun b => ⟨nofun, fun ⟨y, verdict, _⟩ => ?_⟩⟩
    cases (value y).mpr verdict
  · obtain ⟨rfl, value⟩ := ran_selector evaluator quiet agrees given
    obtain ⟨rfl, rfl⟩ := ran_pure further
    refine ⟨rfl, fun b =>
      ⟨fun same => ⟨y, (value y).mp rfl, Except.ok.inj same⟩, fun ⟨z, verdict, truth⟩ => ?_⟩⟩
    cases ((value y).mp rfl).symm.trans verdict
    rw [truth]

theorem ran_seekVarset {count k : Nat} (spans : Reader.Over first rest r)
    (cursor : r.cursor = some k) (covers : first.Covers base m.vars)
    (enough : (first :: rest).length ≤ k + count)
    (ran : Ran (seekVarset p selector count r) m x m') :
    (∀ j, Picks p.patterns selector base first (first :: rest) k j → x = .ok true ∧
      ∀ v, (first :: rest)[j]? = some v → m'.vars.Agrees (base.assign v)) ∧
    (x = .ok true → ∃ j, Picks p.patterns selector base first (first :: rest) k j) := by
  induction count generalizing k r m with
  | zero =>
    obtain ⟨rfl, rfl⟩ := ran_pure ran
    refine ⟨fun j picks => ?_, by rintro ⟨⟩⟩
    obtain ⟨_, there, _⟩ := picks.cases
    have := (List.getElem?_eq_some_iff.mp there).1
    omega
  | succ count ih =>
    have current : r.current? = (first :: rest)[k]? := by
      rw [Reader.current?, cursor, spans.varsets]; rfl
    unfold seekVarset at ran
    rw [Reader.atEnd, current] at ran
    cases there : (first :: rest)[k]? with
    | none =>
      rw [there, Option.isNone_none, if_pos rfl] at ran
      obtain ⟨rfl, rfl⟩ := ran_pure ran
      refine ⟨fun j picks => ?_, by rintro ⟨⟩⟩
      obtain ⟨_, wrong, _⟩ := picks.cases
      cases there.symm.trans wrong
    | some v =>
      rw [there, Option.isNone_some, if_neg Bool.false_ne_true] at ran
      have further := ran_takeVarset_bind spans cursor there ran
      -- what the varset here is like if one is picked from here on
      have like {j : Nat} (picks : Picks p.patterns selector base first (first :: rest) k j) :
          v.Alike first ∧ ∃ y, v.verdict p.patterns selector base = .ok y ∧
            (y.truthy = true ∧ j = k ∨ y.truthy = false ∧
              Picks p.patterns selector base first (first :: rest) (k + 1) j) := by
        obtain ⟨w, again, found⟩ := picks.cases
        cases there.symm.trans again
        exact found
      split at further
      case isFalse other =>
        obtain ⟨e, rfl⟩ := further
        exact ⟨fun j picks => absurd (like picks).1 other, by rintro ⟨⟩⟩
      rename_i alike
      have distinct := spans.distinct v (List.mem_of_getElem? there)
      have agrees := covers.agrees alike distinct
      rcases ran_bind further with ⟨e, rfl, failed⟩ | ⟨truth, m₁, held, further⟩
      · obtain ⟨_, value⟩ := ran_selectorHolds evaluator quiet agrees failed
        refine ⟨fun j picks => ?_, by rintro ⟨⟩⟩
        obtain ⟨_, y, verdict, _⟩ := like picks
        cases (value y.truthy).mpr ⟨y, verdict, rfl⟩
      obtain ⟨rfl, value⟩ := ran_selectorHolds evaluator quiet agrees held
      obtain ⟨y, verdict, rfl⟩ := (value truth).mp rfl
      have like {j : Nat} (picks : Picks p.patterns selector base first (first :: rest) k j) :
          y.truthy = true ∧ j = k ∨
          y.truthy = false ∧ Picks p.patterns selector base first (first :: rest) (k + 1) j := by
        obtain ⟨_, z, verdict', found⟩ := like picks
        cases verdict.symm.trans verdict'
        exact found
      cases truth : y.truthy with
      | true =>
        rw [truth, if_pos rfl] at further
        obtain ⟨rfl, rfl⟩ := ran_pure further
        refine ⟨fun j picks => ⟨rfl, fun w again => ?_⟩,
          fun _ => ⟨k, .here there alike verdict truth⟩⟩
        rcases like picks with ⟨_, rfl⟩ | ⟨wrong, _⟩
        · cases there.symm.trans again
          exact agrees
        · cases truth.symm.trans wrong
      | false =>
        rw [truth, if_neg Bool.false_ne_true] at further
        have moved : Reader.Over first rest { r with cursor := some (k + 1) } :=
          ⟨spans.varsets, spans.names, spans.distinct⟩
        obtain ⟨found, back⟩ := ih moved rfl (covers.assign alike distinct) (by omega) further
        refine ⟨fun j picks => ?_, fun done => ?_⟩
        · rcases like picks with ⟨wrong, _⟩ | ⟨_, later⟩
          · cases truth.symm.trans wrong
          · exact found j later
        · obtain ⟨j, later⟩ := back done
          exact ⟨j, .later there alike verdict truth later⟩

end

end Seeking

/-- The varset at `k` is the one that a selector selects, with a boolean for the first one. -/
def Selects (patterns : Matcher) (selector : String) (env : Env) (vs : List Varset) (k : Nat) :
    Prop :=
  ∃ first b, vs[0]? = some first ∧ first.verdict patterns selector env = .ok (.bool b) ∧
    Picks patterns selector env first vs 0 k

/-- The first varset is selected if the selector holds for it, and passed otherwise. -/
theorem Selects.cases {patterns : Matcher} {selector : String} {env : Env} {first : Varset}
    {rest : List Varset} {k : Nat} (selects : Selects patterns selector env (first :: rest) k) :
    ∃ b, first.verdict patterns selector env = .ok (.bool b) ∧
      (b = true ∧ k = 0 ∨
        b = false ∧ Picks patterns selector env first (first :: rest) 1 k) := by
  obtain ⟨_, b, same, verdict, picks⟩ := selects
  cases same
  obtain ⟨_, same, _, y, verdict', found⟩ := picks.cases
  cases same
  cases verdict.symm.trans verdict'
  exact ⟨b, verdict, found⟩

def LoadWord.format : LoadWord → Format
  | .json => .json
  | .xml | .plain => .xml

section Loading

variable {p : Program} {format : Format} {c : Command} {vs : List Varset} {m m' : Machine}
  {x : Reply Unit}

theorem DataFile.ran_loadVars (file : DataFile p format c.target vs)
    (ran : Ran (loadVars p format c) m x m') :
    (vs = [] ∧ ∃ e, x = .error e) ∨ ∃ first rest r, vs = first :: rest ∧ Reader.Over first rest r ∧
      r.cursor = some 1 ∧
      Ran (if c.value.isEmpty then loadOnly p r else loadSelected p c r)
        { m with vars := m.vars.assign first } x m' := by
  obtain ⟨text, there, decoded⟩ := file.decoded
  have loaded : (Reader.empty format).load p.limits p.files p.base c.target =
      (Reader.empty format).take (Path.locate p.base c.target) vs := by
    unfold Reader.load
    rw [file.named, if_neg Bool.false_ne_true]
    simp only [there]
    rw [show (Reader.empty format).format = format from rfl, decoded]
  unfold loadVars require loadReader at ran
  rw [file.named, if_neg Bool.false_ne_true] at ran
  have ran := ran_bind_ok ran run_pure
  rw [loaded] at ran
  cases vs with
  | nil => exact .inl ⟨rfl, _, (Prod.mk.inj ran).1.symm⟩
  | cons first rest =>
    have spans : Reader.Over first rest
        ((Reader.empty format).take (Path.locate p.base c.target) (first :: rest)).2 :=
      ⟨rfl, rfl, Varset.distinct_ofText decoded⟩
    have further := ran_takeVarset_bind (k := 0) spans rfl rfl (ran_bind_ok ran run_pure)
    rw [if_pos Varset.Alike.refl] at further
    exact .inr ⟨first, rest, _, rfl, ⟨rfl, rfl, spans.distinct⟩, rfl, further⟩

theorem DataFile.ran_select (file : DataFile p format c.target vs)
    (evaluator : p.evaluator = evaluate p.patterns)
    (quiet : ∀ env, (evaluate p.patterns c.value env).2 = env) (given : c.value.isEmpty = false)
    (ran : Ran (loadVars p format c) m x m') :
    (∀ k, Selects p.patterns c.value m.vars vs k → x = .ok () ∧ ∀ v, vs[k]? = some v →
      m'.vars.Agrees (m.vars.assign v)) ∧
      (x = .ok () → ∃ k, Selects p.patterns c.value m.vars vs k) := by
  rcases file.ran_loadVars ran with ⟨rfl, e, rfl⟩ | ⟨first, rest, r, rfl, spans, cursor, further⟩
  · refine ⟨fun k selects => ?_, nofun⟩
    obtain ⟨_, _, wrong, _⟩ := selects
    cases wrong
  rw [given, if_neg Bool.false_ne_true] at further
  have distinct := spans.distinct first List.mem_cons_self
  have covers : first.Covers m.vars m.vars := fun _ _ => rfl
  have agrees : Env.Agrees (m.vars.assign first) (m.vars.assign first) := .refl
  rcases ran_bind further with ⟨e, rfl, failed⟩ | ⟨y, m₁, chosen, further⟩
  · obtain ⟨_, value⟩ := ran_selector evaluator quiet agrees failed
    refine ⟨fun k selects => ?_, nofun⟩
    obtain ⟨b, verdict, _⟩ := selects.cases
    cases (value (.bool b)).mpr verdict
  obtain ⟨rfl, value⟩ := ran_selector evaluator quiet agrees chosen
  have verdict : first.verdict p.patterns c.value m.vars = .ok y := (value y).mp rfl
  split at further
  · obtain ⟨rfl, rfl⟩ := ran_pure further
    refine ⟨fun k selects => ⟨rfl, fun v again => ?_⟩,
      fun _ => ⟨0, first, true, rfl, verdict, .here rfl (.refl) verdict rfl⟩⟩
    obtain ⟨b, verdict', found⟩ := selects.cases
    cases verdict.symm.trans verdict'
    rcases found with ⟨_, rfl⟩ | ⟨wrong, _⟩
    · cases again
      exact agrees
    · cases wrong
  · have later {k : Nat} (selects : Selects p.patterns c.value m.vars (first :: rest) k) :
        Picks p.patterns c.value m.vars first (first :: rest) 1 k := by
      obtain ⟨b, verdict', found⟩ := selects.cases
      cases verdict.symm.trans verdict'
      rcases found with ⟨wrong, _⟩ | ⟨_, picks⟩
      · cases wrong
      · exact picks
    have seeking {x : Reply Bool} {m₂ : Machine}
        (ran : Ran (seekVarset p c.value r.varsets.length r)
        { m with vars := m.vars.assign first } x m₂) :=
      ran_seekVarset evaluator quiet spans cursor (covers.assign (.refl) distinct)
        (by rw [spans.varsets]; omega) ran
    rcases ran_bind further with ⟨e, rfl, failed⟩ | ⟨found, m₂, sought, further⟩
    · refine ⟨fun k selects => ?_, nofun⟩
      cases ((seeking failed).1 k (later selects)).1
    obtain ⟨picked, back⟩ := seeking sought
    cases found with
    | true =>
      obtain ⟨rfl, rfl⟩ := ran_pure further
      refine ⟨fun k selects => ⟨rfl, (picked k (later selects)).2⟩, fun _ => ?_⟩
      obtain ⟨j, picks⟩ := back rfl
      exact ⟨j, first, false, rfl, verdict, .later rfl (.refl) verdict rfl picks⟩
    | false =>
      obtain ⟨rfl, _⟩ := Prod.mk.inj further
      refine ⟨fun k selects => ?_, nofun⟩
      cases (picked k (later selects)).1
  · refine ⟨fun k selects => ?_, ?_⟩
    · obtain ⟨b, verdict', _⟩ := selects.cases
      cases verdict.symm.trans verdict'
      cases b <;> contradiction
    · obtain ⟨rfl, _⟩ := Prod.mk.inj further
      exact nofun

theorem DataFile.ran_single (file : DataFile p format c.target vs) (given : c.value.isEmpty = true)
    (ran : Ran (loadVars p format c) m x m') :
    (x = .ok () ↔ vs.length = 1) ∧ ∀ v, vs = [v] → m'.vars.Agrees (m.vars.assign v) := by
  rcases file.ran_loadVars ran with ⟨rfl, e, rfl⟩ | ⟨first, rest, r, rfl, spans, cursor, further⟩
  · exact ⟨⟨by rintro ⟨⟩, by rintro ⟨⟩⟩, by rintro _ ⟨⟩⟩
  rw [given, if_pos rfl] at further
  have spent : r.atEnd = rest.isEmpty := by
    rw [Reader.atEnd, Reader.current?, cursor, spans.varsets]
    cases rest <;> rfl
  unfold loadOnly at further
  rw [spent] at further
  cases rest with
  | nil =>
    obtain ⟨rfl, rfl⟩ := ran_pure further
    refine ⟨⟨fun _ => rfl, fun _ => rfl⟩, fun v same => ?_⟩
    cases same
    exact .refl
  | cons second rest =>
    obtain ⟨rfl, _⟩ := Prod.mk.inj further
    refine ⟨⟨by rintro ⟨⟩, fun wrong => ?_⟩, by rintro _ ⟨⟩⟩
    simp at wrong

end Loading

def Selector (patterns : Matcher) (text : String) : Prop :=
  ∀ s, Statement.read patterns text = .ok s → s.targets = []

theorem Selector.quiet {patterns : Matcher} {text : String} (selector : Selector patterns text)
    (env : Env) : (evaluate patterns text env).2 = env := by
  rcases evaluate_writes with same | ⟨s, read, writes⟩
  · exact same
  · rw [selector s read] at writes
    exact writes.eq

/-- A load command with a selector succeeds exactly if the selector selects a varset of its file,
and gives its values to the variables as if there were no others before it; without a selector it
succeeds exactly if the file has one varset. -/
theorem selector_selects {p : Program} {c : Command} {word : LoadWord} {vs : List Varset}
    {m m' : Machine} {r : Except Failure Unit} (evaluator : p.evaluator = evaluate p.patterns)
    (verb : c.verb? = some (.load word)) (file : DataFile p word.format c.target vs)
    (ran : Ran (execute p c) m r m') :
    (c.value.isEmpty = false → Selector p.patterns c.value →
      (r = .ok () ↔ ∃ k, Selects p.patterns c.value m.vars vs k) ∧
      ∀ k, Selects p.patterns c.value m.vars vs k →
        ∃ v, vs[k]? = some v ∧ m'.vars.Agrees (m.vars.assign v)) ∧
    (c.value.isEmpty = true →
      (r = .ok () ↔ vs.length = 1) ∧ ∀ v, vs = [v] → m'.vars.Agrees (m.vars.assign v)) := by
  obtain ⟨r', rfl, performed⟩ := ran_execute verb ran
  have done : r'.mapError (·.locate m'.here) = .ok () ↔ r' = .ok () := by
    cases r' <;> simp [Except.mapError]
  rw [done]
  -- the deprecated command says so first, and then does what the other one does
  obtain ⟨m₁, vars, loads⟩ : ∃ m₁, m₁.vars = m.vars ∧ Ran (loadVars p word.format c) m₁ r' m' := by
    cases word with
    | json | xml => exact ⟨{ m with resume := none }, rfl, performed⟩
    | plain =>
      refine ⟨_, ?_, ran_log_bind performed⟩
      rfl
  rw [← vars]
  refine ⟨fun given selector => ?_, fun given => file.ran_single given loads⟩
  obtain ⟨selected, back⟩ := file.ran_select evaluator selector.quiet given loads
  refine ⟨⟨back, fun ⟨k, selects⟩ => (selected k selects).1⟩, fun k selects => ?_⟩
  obtain ⟨_, _, _, _, picks⟩ := id selects
  obtain ⟨v, _, there, _⟩ := picks.taken
  exact ⟨v, there, (selected k selects).2 v there⟩

def secondOfThree : Program where
  commands := [{ name := "loadVars", target := "d.xml", value := "name == 'b'" }]
  files := { contents := [(["d.xml"],
    "<d><vars name='a' size='1'/><vars size='2' name='b'/><vars name='b' size='3'/></d>".toUTF8)] }

theorem selector_selects_secondOfThree :
    ∃ vs r m', vs.length = 3 ∧
      Ran (execute secondOfThree { name := "loadVars", target := "d.xml", value := "name == 'b'" })
        { vars := [("size", .null)] } r m' ∧
      (m'.vars.get? "size").bind (·.toText.toOption) = some "2" ∧
      ∃ k v, Selects .standard "name == 'b'" [("size", .null)] vs k ∧ vs[k]? = some v ∧
        m'.vars.Agrees (Env.assign [("size", .null)] v) := by
  let path := Path.locate none "d.xml"
  let text := "<d><vars name='a' size='1'/><vars size='2' name='b'/><vars name='b' size='3'/></d>"
  let c : Command := { name := "loadVars", target := "d.xml", value := "name == 'b'" }
  have readable : (Varset.ofText {} .xml path text).isOk = true := by decide +kernel
  have targets :
      (Statement.read .standard "name == 'b'").toOption.map Statement.targets = some [] := by
    decide +kernel
  have selector : Selector .standard "name == 'b'" := by
    intro s read
    rw [read] at targets
    exact Option.some.inj targets
  cases decoded : Varset.ofText {} .xml path text with
  | error e => rw [decoded] at readable; cases readable
  | ok vs =>
    have three : vs.length = 3 := by
      have length : (Varset.ofText {} .xml path text).toOption.map List.length = some 3 := by
        decide +kernel
      rw [decoded] at length
      exact Option.some.inj length
    have file : DataFile secondOfThree .xml "d.xml" vs :=
      ⟨by decide +kernel, text, by decide +kernel, decoded⟩
    have ran := ran_self (execute secondOfThree c) { vars := [("size", .null)] }
    have done :
        ((execute secondOfThree c).run.run { vars := [("size", .null)] }).1.isOk = true := by
      decide +kernel
    have verb : c.verb? = some (.load .plain) := by decide +kernel
    have fine {x : Except Failure Unit} (isOk : x.isOk = true) : x = .ok () := by
      cases x with
      | error e => cases isOk
      | ok _ => rfl
    obtain ⟨success, taken⟩ := (selector_selects rfl verb file ran).1 (by decide +kernel) selector
    obtain ⟨k, selects⟩ := success.mp (fine done)
    obtain ⟨v, there, agrees⟩ := taken k selects
    exact ⟨vs, _, _, three, ran, by decide +kernel, k, v, selects, there, agrees⟩

end Runbook
