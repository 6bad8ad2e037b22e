import Runbook.Proofs.Expr.Writes
import Runbook.Proofs.Run.Driven

namespace Runbook

open List

namespace Env

variable {names : List String}

theorem writes_assign (env : Env) {values : Record Value} (known : values.names ⊆ names) :
    env.Writes names (env.assign values) := by
  induction values generalizing env with
  | nil => exact .refl
  | cons entry rest ih =>
    obtain ⟨first, others⟩ := cons_subset.mp known
    exact .head ⟨entry.1, first, entry.2, rfl⟩ (ih _ others)

theorem writes_declare (env : Env) {given : List String} (known : given ⊆ names) :
    env.Writes names (env.declare given) := by
  induction given generalizing env with
  | nil => exact .refl
  | cons name rest ih =>
    obtain ⟨first, others⟩ := cons_subset.mp known
    have further := ih (if env.has name then env else env.set name .null) others
    split at further
    · rename_i defined
      simpa only [declare, foldl_cons, if_pos defined] using further
    · rename_i undefined
      refine .head ⟨name, first, .null, rfl⟩ ?_
      simpa only [declare, foldl_cons, if_neg undefined] using further

end Env

open Runbook.Action

/-- Only variables that the innermost block, a loop at this place, puts back when it is left have
got values. -/
def WritesLocals (i : Int) (m m' : Machine) : Prop :=
  m'.vars = m.vars ∨
    ∃ f rest, m'.call.blocks = f :: rest ∧ (f.place : Int) = i ∧ f.isLoop = true ∧
    m.vars.Writes f.saved.names m'.vars

section Loops

variable {p : Program} {m m' : Machine} {c : Command} {format : Format} {place last : Nat}
  {saved : Snapshot} {l : Loop} {rest : List Frame} {r : Except Failure Unit}

theorem ran_openerHere {x : Reply (Nat × Form × Nat)} (ran : Ran (openerHere p) m x m') :
    m' = m ∧ ∀ place form last, x = .ok (place, form, last) → ∀ i, m.here = some i →
      (place : Int) = i := by
  have ran := ran_get_bind ran
  dsimp only at ran
  split at ran
  · rename_i form last opener
    obtain ⟨rfl, rfl⟩ := ran_pure ran
    refine ⟨rfl, fun place form last same i here => ?_⟩
    cases same
    rw [here] at opener ⊢
    have inside : ¬ i < 0 := by
      intro before
      simp [blockAt?, before] at opener
    exact Int.toNat_of_nonneg (Int.not_lt.mp inside)
  · obtain ⟨rfl, rfl⟩ := ran_throw ran
    exact ⟨rfl, by rintro _ _ _ ⟨⟩⟩

theorem ran_branchTo {dest : Int} (ran : Ran (branchTo p dest) m r m') :
    ∃ branch, m' = { m with branch := branch } := by
  unfold branchTo at ran
  split at ran
  all_goals
    obtain ⟨_, rfl⟩ := Prod.mk.inj ran
    exact ⟨_, rfl⟩

theorem ran_round {x : Reply Bool} (ran : Ran (dataRounds p format c).goesOn m x m') :
    m' = m ∨ ∃ place saved l rest reader varset after, m.Top ⟨place, saved, .loop l⟩ rest ∧
      l.cursor = .data reader ∧ reader.next = .ok (varset, after) ∧
      m' = { m with
        vars := m.vars.assign varset
        call := { m.call with
          blocks := ⟨place, saved, .loop { l with cursor := .data after }⟩ :: rest } } :=
  (ran_dataGoesOn (E := fun _ => True) (.inr trivial) (fun _ => trivial)
    ⟨fun _ => trivial, fun _ _ => trivial, fun _ _ _ => trivial⟩ p c rfl ran).2

theorem ran_dataRound (top : m.Top ⟨place, saved, .loop l⟩ rest)
    (sturdy : Frame.Sturdy ⟨place, saved, .loop l⟩)
    (ran : Ran (tryRound p (dataRounds p format c) last) m r m') :
    ∃ l', m'.Top ⟨place, saved, .loop l'⟩ rest ∧ m.vars.Writes saved.names m'.vars := by
  have round {x : Reply Bool} {m₁ : Machine} (ran : Ran (dataRounds p format c).goesOn m x m₁) :
      ∃ l', m₁.Top ⟨place, saved, .loop l'⟩ rest ∧ m.vars.Writes saved.names m₁.vars := by
    rcases ran_round ran with
      rfl | ⟨place', saved', l', rest', reader, varset, after, top', cursor, next, rfl⟩
    · exact ⟨l, top, .refl⟩
    · cases top.symm.trans top'
      have known : reader.names ⊆ saved.names := by
        have known : l.cursor.names ⊆ saved.names := sturdy.known
        rwa [cursor] at known
      exact ⟨_, rfl, Env.writes_assign m.vars (List.Subset.trans (Reader.names_next next).1 known)⟩
  rcases ran_bind ran with ⟨e, _, failed⟩ | ⟨more, m₁, goes, further⟩
  · exact round failed
  obtain ⟨l', top', writes⟩ := round goes
  split at further
  · have further := ran_bind_ok further (run_changeLoop top' rfl)
    obtain ⟨branch, rfl⟩ := ran_branchTo further
    exact ⟨_, rfl, writes⟩
  · obtain ⟨_, rfl⟩ := ran_pure further
    exact ⟨l', top', writes⟩

theorem vars_noRound (other : ∀ f l, m.call.blocks.head? = some f → f.body ≠ .loop l)
    (ran : Ran (tryRound p (dataRounds p format c) last) m r m') : m'.vars = m.vars := by
  have round {x : Reply Bool} {m₁ : Machine} (ran : Ran (dataRounds p format c).goesOn m x m₁) :
      m₁ = m := by
    rcases ran_round ran with same | ⟨_, _, l, _, _, _, _, top, _⟩
    · exact same
    · exact absurd rfl (other _ l (by rw [top]; rfl))
  rcases ran_bind ran with ⟨e, _, failed⟩ | ⟨more, m₁, goes, further⟩
  · rw [round failed]
  rw [← round goes]
  split at further
  · rw [changeLoop] at further
    have further := ran_bind_ok further run_change
    obtain ⟨branch, rfl⟩ := ran_branchTo further
    dsimp only
    split <;> rfl
  · rw [(ran_pure further).2]

theorem ran_enterData {shown : LoopKind}
    (ran : Ran (enterLoop place shown (dataRounds p format c)) m r m') :
    (∃ e, r = .error e) ∧ m'.vars = m.vars ∨
      ∃ saved l, r = .ok () ∧ m'.Top ⟨place, saved, .loop l⟩ m.call.blocks ∧
      Frame.Sturdy ⟨place, saved, .loop l⟩ ∧ m.vars.Writes saved.names m'.vars := by
  let pushed : Machine :=
    { m with call :=
      { m.call with blocks := ⟨place, [], .loop { kind := shown }⟩ :: m.call.blocks } }
  have ran : Ran (do
      let names ← prepareData p format c
      let saved := (← get).vars.capture names
      change fun f => { f with saved := saved }
      beginRounds place shown (dataRounds p format c) names) pushed r m' := ran
  rcases ran_bind ran with ⟨e, rfl, failed⟩ | ⟨names, m₁, prepared, further⟩
  · rcases ran_prepareData rfl failed with ⟨_, _, _, _, rfl⟩ | ⟨_, _, rfl⟩ <;> exact .inl
      ⟨⟨e, rfl⟩, rfl⟩
  rcases ran_prepareData rfl prepared with ⟨_, wrong, _⟩ | ⟨reader, loaded, rfl⟩
  · cases wrong
  have further := ran_bind_ok (ran_get_bind further) (run_change_top rfl)
  obtain ⟨rfl, rfl⟩ := Prod.mk.inj further
  have captured : names ⊆ (m.vars.capture names).names := fun _ => Env.mem_names_capture.mpr
  have known : reader.names ⊆ names := Reader.names_of_load loaded ▸ List.Subset.refl _
  exact .inr ⟨m.vars.capture names, _, rfl, rfl, ⟨List.Subset.trans known captured, nofun⟩,
    Env.writes_declare m.vars captured⟩

theorem writesLocals_openLoop {i : Int} (whole : m.Sturdy) (here : m.here = some i)
    (ran : Ran (openLoop p (dataRounds p format c)) m r m') : WritesLocals i m m' := by
  rcases ran_bind ran with ⟨e, _, failed⟩ | ⟨⟨place, form, last⟩, m₁, opens, further⟩
  · rw [(ran_openerHere failed).1]
    exact .inl rfl
  obtain ⟨rfl, placed⟩ := ran_openerHere opens
  have placed : (place : Int) = i := placed place form last rfl i here
  have written {m₂ : Machine} {saved : Snapshot} {l : Loop} {rest : List Frame}
      (top : m₂.Top ⟨place, saved, .loop l⟩ rest) (sturdy : Frame.Sturdy ⟨place, saved, .loop l⟩)
      (before : m₁.vars.Writes saved.names m₂.vars)
      (ran : Ran (tryRound p (dataRounds p format c) last) m₂ r m') : WritesLocals i m₁ m' := by
    obtain ⟨l', top', writes⟩ := ran_dataRound top sturdy ran
    exact .inr ⟨_, rest, top', placed, rfl, before.trans writes⟩
  rcases ran_isTop_bind further with ⟨f, rest, top, same, further⟩ | ⟨_, further⟩
  · have round := ran_bind_ok further run_pure
    have sturdy : f.Sturdy := (forall_frames.mp whole).1 f (by rw [top]; exact mem_cons_self)
    obtain ⟨_, saved, body⟩ := f
    cases same
    cases body with
    | loop l => exact written top sturdy .refl round
    | cond _ | guard _ =>
      exact .inl (vars_noRound (fun f l placed => by rw [top] at placed; cases placed; nofun) round)
  · rw [if_neg Bool.false_ne_true] at further
    split at further
    · rcases ran_bind further with ⟨e, rfl, failed⟩ | ⟨_, m₂, entered, further⟩
      · rcases ran_enterData failed with ⟨_, same⟩ | ⟨_, _, wrong, _⟩
        · exact .inl same
        · cases wrong
      · rcases ran_enterData entered with ⟨⟨_, wrong⟩, _⟩ | ⟨saved, l, _, top, sturdy, writes⟩
        · cases wrong
        · exact written top sturdy writes further
    · rcases ran_bind further with ⟨e, _, failed⟩ | ⟨_, m₂, wrong, _⟩
      · rw [(ran_throw failed).2]
        exact .inl rfl
      · cases (ran_throw wrong).1

end Loops

/-- Whatever is asked of a reader that has loaded a file, in whatever order, it gives the varsets of
the file in turn, up to the first one that has not the names of the first varset; and a loop over a
data file gives values only to the names that it puts back when it is left. -/
theorem varsets_in_turn :
    (∀ {limits : Limits} {files : Files} {base : Option Path} {r r' : Reader} {target : String}
      {names : List String},
      r.load limits files base target = (.ok names, r') → ∀ requests : List Reader.Request,
        ∃ text, files.text? (Path.locate base target) = .ok (some text) ∧
          Varset.ofText limits r.format (Path.locate base target) text = .ok r'.varsets ∧
          Reader.InTurn r'.varsets names (requests.count .next) (r'.afterAll requests)) ∧
    ∀ {p : Program} {m m' : Machine} {i : Int} {c : Command} {kind : LoopKind}
      {r : Except Failure Unit},
      Driven p m → m.here = some i → c.verb? = some (.openLoop kind) → kind = .json ∨ kind = .xml →
      Ran (execute p c) m r m' → WritesLocals i m m' := by
  refine ⟨fun loaded requests => Reader.inTurn_of_load loaded, fun {p m m' i c
    kind r} driven here verb data ran => ?_⟩
  obtain ⟨_, _, performed⟩ := ran_execute verb ran
  rcases data with rfl | rfl
  all_goals exact writesLocals_openLoop (m :=
    { m with resume := none }) driven.sturdy here performed

/-- A loop over three varsets, of which the second has its names in another order and the third
lacks one. -/
def unevenLoop : Program :=
  { Program.ofCommands
      [{ name := "forJson", target := "d.json" }, { name := "echo", target := "a" },
       { name := "endForJson" }] with
    files := { contents := [(["d.json"],
      "[\x7b\"a\": 1, \"b\": 2\x7d, \x7b\"b\": 3, \"a\": 4\x7d, \x7b\"a\": 5\x7d]".toUTF8)] } }

def unevenLoop.reader : Reader := ((Reader.empty .json).load {} unevenLoop.files none "d.json").2

def unevenLoop.second : Machine :=
  ((next unevenLoop).run.run (Session.runFor unevenLoop 3 {}).1.machine).2

theorem varsets_in_turn_unevenLoop :
    (unevenLoop.reader.varsets.length = 3 ∧ Varset.alikeCount unevenLoop.reader.varsets = 2 ∧
      Reader.InTurn unevenLoop.reader.varsets ["a", "b"] 3
        (unevenLoop.reader.afterAll [.next, .atEnd, .next, .next])) ∧
    ∃ r m', Ran (execute unevenLoop { name := "forJson", target := "d.json" })
      unevenLoop.second r m' ∧
      (unevenLoop.second.vars.get? "a").bind (·.toText.toOption) = some "1" ∧
      (m'.vars.get? "a").bind (·.toText.toOption) = some "4" ∧
        WritesLocals 0 unevenLoop.second m' := by
  have names :
      ((Reader.empty .json).load {} unevenLoop.files none "d.json").1 = .ok ["a", "b"] := by
    decide +kernel
  have loaded : (Reader.empty .json).load {} unevenLoop.files none "d.json" =
      (.ok ["a", "b"], unevenLoop.reader) := by
    rw [unevenLoop.reader, ← names]
  obtain ⟨_, _, _, turn⟩ := varsets_in_turn.1 loaded [.next, .atEnd, .next, .next]
  refine ⟨⟨by decide +kernel, by decide +kernel, turn⟩, ?_⟩
  have driven : Driven unevenLoop unevenLoop.second := by
    unfold unevenLoop.second
    exact (Session.driven_runFor 3 (.start rfl)).fetch
      (ran_self (next unevenLoop) (Session.runFor unevenLoop 3 {}).1.machine)
  have here : unevenLoop.second.here = some 0 := by decide +kernel
  have verb : Command.verb? { name := "forJson", target := "d.json" } = some (.openLoop .json) := by
    decide +kernel
  have ran := ran_self (execute unevenLoop { name := "forJson", target := "d.json" })
    unevenLoop.second
  exact ⟨_, _, ran, by decide +kernel, by decide +kernel, varsets_in_turn.2 driven here verb
    (.inl rfl) ran⟩

end Runbook
