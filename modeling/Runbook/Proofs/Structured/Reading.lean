import Runbook.Proofs.Outline.Grammar
import Runbook.Proofs.Structured.Meaning

namespace Runbook

open List

def Verb.standsIn (x : Around) : Verb → Bool
  | .label | .call | .exitTest | .load _ => true
  | .again | .leave => x.loop
  | .giveBack => x.function
  | _ => false

theorem standsIn_of_plain {v : Verb} (x : Around) (plain : v.role = .plain)
    (straight : v.jumps = false) : v.standsIn x = true := by
  cases v <;> simp_all [Verb.role, Verb.jumps, Verb.standsIn]

/-- The commands from a place up to another one read as a tree. -/
inductive Reads (cs : List Command) : Phrase → Around → Nat → Nat → Tree → Prop
  | done {x : Around} {i : Nat} : Reads cs .items x i i .done
  | single {x : Around} {i j : Nat} {c : Command} {rest : Tree} (has : cs[i]? = some c)
      (alone : ∀ v, c.verb? = some v → v.standsIn x = true)
      (further : Reads cs .items x (i + 1) j rest) : Reads cs .items x i j (.single i c rest)
  | cond {x : Around} {i m n j : Nat} {c : Command} {body others rest : Tree}
      (has : cs[i]? = some c) (opens : c.verb? = some .openIf)
      (inner : Reads cs .items x (i + 1) m body) (branches : Reads cs .branches x m n others)
      (closes : verbAt cs n = some .endIf) (further : Reads cs .items x (n + 1) j rest) :
      Reads cs .items x i j (.cond i c body others rest)
  | noBranch {x : Around} {i : Nat} : Reads cs .branches x i i .done
  | elseIf {x : Around} {i m n : Nat} {c : Command} {body others : Tree} (has : cs[i]? = some c)
      (verb : c.verb? = some .elseIf) (inner : Reads cs .items x (i + 1) m body)
      (branches : Reads cs .branches x m n others) :
      Reads cs .branches x i n (.branch i c body others)
  | orElse {x : Around} {i n : Nat} {c : Command} {body : Tree} (has : cs[i]? = some c)
      (verb : c.verb? = some .orElse) (inner : Reads cs .items x (i + 1) n body) :
      Reads cs .branches x i n (.branch i c body .done)
  | loop {x : Around} {i n j : Nat} {c : Command} {kind : LoopKind} {body rest : Tree}
      (has : cs[i]? = some c) (opens : c.verb? = some (.openLoop kind))
      (inner : Reads cs .items { x with loop := true } (i + 1) n body)
      (closes : verbAt cs n = some (.endLoop kind)) (further : Reads cs .items x (n + 1) j rest) :
      Reads cs .items x i j (.loop i kind c body rest)
  | guard {x : Around} {i m n k j : Nat} {body handler last rest : Tree}
      (opens : verbAt cs i = some .openTry) (inner : Reads cs .items x (i + 1) m body)
      (handles : Reads cs (.segment .openCatch) x m n handler)
      (finishes : Reads cs (.segment .openFinally) x n k last) (closes : verbAt cs k = some .endTry)
      (further : Reads cs .items x (k + 1) j rest) :
      Reads cs .items x i j (.guard i body handler last rest)
  | noSegment {x : Around} {v : Verb} {i : Nat} : Reads cs (.segment v) x i i .done
  | segment {x : Around} {v : Verb} {i j : Nat} {c : Command} {body : Tree} (has : cs[i]? = some c)
      (verb : c.verb? = some v) (inner : Reads cs .items x (i + 1) j body) :
      Reads cs (.segment v) x i j (.segment i c body)
  | function {x : Around} {i n j : Nat} {c : Command} {word : FunctionWord} {body rest : Tree}
      (has : cs[i]? = some c) (opens : c.verb? = some (.openFunction word))
      (inner : Reads cs .items { loop := false, function := true } (i + 1) n body)
      (closes : verbAt cs n = some (.endFunction word))
      (further : Reads cs .items x (n + 1) j rest) :
      Reads cs .items x i j (.function i c.target body rest)

section Existence

variable {cs : List Command} {i : Nat} {c : Command} {rest : List Command}

theorem at_of_drop (here : cs.drop i = c :: rest) :
    cs[i]? = some c ∧ i + 1 ≤ cs.length ∧ cs.drop (i + 1) = rest := by
  have first : (cs.drop i)[0]? = some c := by rw [here]; rfl
  rw [List.getElem?_drop] at first
  refine ⟨first, (List.getElem?_eq_some_iff.mp first).1, ?_⟩
  rw [← drop_drop, here]
  rfl

theorem Derives.reads {phrase : Phrase} {x : Around} {body : List Command}
    (derives : Derives phrase x body) (straight : ∀ c ∈ cs, ∀ v, c.verb? = some v → v.jumps = false)
    (bound : i ≤ cs.length) (here : cs.drop i = body ++ rest) :
    ∃ j t, j ≤ cs.length ∧ cs.drop j = rest ∧ Reads cs phrase x i j t := by
  induction derives generalizing i rest with
  | done => exact ⟨i, _, bound, here, .done⟩
  | noBranch => exact ⟨i, _, bound, here, .noBranch⟩
  | noSegment => exact ⟨i, _, bound, here, .noSegment⟩
  | @plain x c _ plain _ ih =>
    obtain ⟨has, next, here⟩ := at_of_drop here
    obtain ⟨j, t, last, after, reads⟩ := ih next here
    refine ⟨j, _, last, after, .single has (fun v verb => ?_) reads⟩
    exact standsIn_of_plain x (plain v verb) (straight c (mem_of_getElem? has) v verb)
  | exit verb inside _ ih =>
    obtain ⟨has, next, here⟩ := at_of_drop here
    obtain ⟨j, t, last, after, reads⟩ := ih next here
    refine ⟨j, _, last, after, .single has (fun v same => ?_) reads⟩
    rcases verb with verb | verb <;> cases verb.symm.trans same <;> exact inside
  | giveBack verb inside _ ih =>
    obtain ⟨has, next, here⟩ := at_of_drop here
    obtain ⟨j, t, last, after, reads⟩ := ih next here
    refine ⟨j, _, last, after, .single has (fun v same => ?_) reads⟩
    cases verb.symm.trans same
    exact inside
  | cond opens _ _ closes _ inner branches further =>
    simp only [cons_append, append_assoc] at here
    obtain ⟨has, next, here⟩ := at_of_drop here
    obtain ⟨m, body, bound, here, reads⟩ := inner next here
    obtain ⟨n, others, bound, here, reads'⟩ := branches bound here
    obtain ⟨closer, next, here⟩ := at_of_drop here
    obtain ⟨j, rest, last, after, reads''⟩ := further next here
    exact ⟨j, _, last, after, .cond has opens reads reads' (verbAt_of_at closer closes) reads''⟩
  | elseIf verb _ _ inner branches =>
    simp only [cons_append, append_assoc] at here
    obtain ⟨has, next, here⟩ := at_of_drop here
    obtain ⟨m, body, bound, here, reads⟩ := inner next here
    obtain ⟨n, others, bound, here, reads'⟩ := branches bound here
    exact ⟨n, _, bound, here, .elseIf has verb reads reads'⟩
  | orElse verb _ inner =>
    obtain ⟨has, next, here⟩ := at_of_drop here
    obtain ⟨n, body, bound, here, reads⟩ := inner next here
    exact ⟨n, _, bound, here, .orElse has verb reads⟩
  | guard opens _ _ _ closes _ _ inner handles finishes further =>
    simp only [cons_append, append_assoc] at here
    obtain ⟨has, next, here⟩ := at_of_drop here
    obtain ⟨m, body, bound, here, reads⟩ := inner next here
    obtain ⟨n, handler, bound, here, reads'⟩ := handles bound here
    obtain ⟨k, final, bound, here, reads''⟩ := finishes bound here
    obtain ⟨closer, next, here⟩ := at_of_drop here
    obtain ⟨j, rest, last, after, later⟩ := further next here
    exact ⟨j, _, last, after, .guard (verbAt_of_at has opens) reads reads' reads''
      (verbAt_of_at closer closes) later⟩
  | segment verb _ inner =>
    obtain ⟨has, next, here⟩ := at_of_drop here
    obtain ⟨n, body, bound, here, reads⟩ := inner next here
    exact ⟨n, _, bound, here, .segment has verb reads⟩
  | loop opens _ closes _ inner further =>
    simp only [cons_append, append_assoc] at here
    obtain ⟨has, next, here⟩ := at_of_drop here
    obtain ⟨n, body, bound, here, reads⟩ := inner next here
    obtain ⟨closer, next, here⟩ := at_of_drop here
    obtain ⟨j, rest, last, after, reads'⟩ := further next here
    exact ⟨j, _, last, after, .loop has opens reads (verbAt_of_at closer closes) reads'⟩
  | function opens _ _ closes _ _ inner further =>
    simp only [cons_append, append_assoc] at here
    obtain ⟨has, next, here⟩ := at_of_drop here
    obtain ⟨n, body, bound, here, reads⟩ := inner next here
    obtain ⟨closer, next, here⟩ := at_of_drop here
    obtain ⟨j, rest, last, after, reads'⟩ := further next here
    exact ⟨j, _, last, after, .function has opens reads (verbAt_of_at closer closes) reads'⟩

theorem reads_of_outline {o : Outline} (found : Outline.find cs = .ok o)
    (straight : ∀ c ∈ cs, ∀ v, c.verb? = some v → v.jumps = false) :
    ∃ t, Reads cs .items {} 0 cs.length t := by
  obtain ⟨_, derives⟩ := (find_iff_wellNested cs).mp ⟨o, found⟩
  have whole : cs.drop 0 = cs ++ [] := by simp
  obtain ⟨j, t, bound, rest, reads⟩ := derives.reads straight (Nat.zero_le _) whole
  obtain rfl : j = cs.length := by
    have := drop_eq_nil_iff.mp rest
    omega
  exact ⟨t, reads⟩

end Existence

end Runbook
